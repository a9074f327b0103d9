import AArch64.Proofs.Images.Encoding
import Mathlib.Control.Monad.Basic

/-! The symbol that marks the start of the heap. Of three names the first one is taken that any symbol has, and of the
symbols of that name the first of the table, whether a section of the image defines it or it is a mere reference. -/
namespace AArch64.Elf

def FirstWith {α : Type} (p : α → Prop) (xs : List α) (x : α) : Prop :=
  p x ∧ ∃ before after, xs = before ++ x :: after ∧ ∀ y ∈ before, ¬p y

namespace FirstWith

variable {α : Type} {p q : α → Prop} {xs : List α} {x y : α}

open Classical in
theorem find?_eq_some_iff : xs.find? (fun y => decide (p y)) = some x ↔ FirstWith p xs x := by
  simp [List.find?_eq_some_iff_append, FirstWith]

theorem mem (h : FirstWith p xs x) : x ∈ xs := by
  obtain ⟨_, before, after, rfl, -⟩ := h
  simp

theorem unique (h : FirstWith p xs x) (h' : FirstWith p xs y) : x = y := by
  classical
  rw [← find?_eq_some_iff] at h h'
  exact Option.some.inj (h.symm.trans h')

theorem exists_of_mem (hx : x ∈ xs) (h : p x) : ∃ y, FirstWith p xs y := by
  classical
  have hfound : (xs.find? fun y => decide (p y)).isSome := List.find?_isSome.2 ⟨x, hx, decide_eq_true h⟩
  obtain ⟨y, hy⟩ := Option.isSome_iff_exists.1 hfound
  exact ⟨y, find?_eq_some_iff.1 hy⟩

/-- A stricter property has the same first element if that has it too. -/
theorem mono (h : FirstWith p xs x) (hq : q x) (hqp : ∀ y, q y → p y) : FirstWith q xs x := by
  obtain ⟨_, before, after, hsplit, hbefore⟩ := h
  exact ⟨hq, before, after, hsplit, fun y hy hqy => hbefore y hy (hqp y hqy)⟩

end FirstWith

/-- Names for the end of the data of a program, in their order of preference. -/
def heapNames : List String := ["end", "__end__", "_end"]

def Symbol.IsDefined (s : Symbol) : Prop := s.sectionIndex ≠ 0#16

instance (s : Symbol) : Decidable s.IsDefined := inferInstanceAs (Decidable (_ ≠ _))

namespace Contents

variable (c : Contents)

/-- The symbol has that name: its bytes stand at the place that the symbol tells, up to a zero or to the end of the
names. -/
def Bears (name : String) (s : Symbol) : Prop :=
  (c.symbolNames.drop s.name.toNat).takeWhile (· ≠ 0#8) = name.toList.map fun x => BitVec.ofNat 8 x.toNat

instance (name : String) (s : Symbol) : Decidable (c.Bears name s) := inferInstanceAs (Decidable (_ = _))

/-- Of the symbols that count, the first that has the first name that any of them has. -/
structure HeapSymbol (counts : Symbol → Prop) (name : String) (s : Symbol) : Prop where
  preferred : FirstWith (fun n => ∃ t ∈ c.symbols, counts t ∧ c.Bears n t) heapNames name
  first : FirstWith (fun t => counts t ∧ c.Bears name t) c.symbols s

end Contents

namespace StringTable

theorem bytesFrom_eq (t : StringTable) (n i : Nat) :
    t.bytesFrom n i = ((t.bytes.toList.drop i).take n).takeWhile (· ≠ 0#8) := by
  induction n generalizing i with
  | zero => simp [bytesFrom]
  | succ n ih =>
    rw [bytesFrom]
    cases hb : t.bytes[i]? with
    | none =>
      have hle : t.bytes.size ≤ i := Array.getElem?_eq_none_iff.1 hb
      simp [List.drop_eq_nil_of_le, hle]
    | some b =>
      obtain ⟨hlt, rfl⟩ := Array.getElem?_eq_some_iff.1 hb
      rw [List.drop_eq_getElem_cons (by simpa using hlt), List.take_succ_cons, List.takeWhile_cons, ih]
      by_cases h0 : t.bytes[i] = 0#8 <;> simp [h0]

theorem nameAt_eq (t : StringTable) (i : Nat) : t.nameAt i = (t.bytes.toList.drop i).takeWhile (· ≠ 0#8) := by
  rw [nameAt, bytesFrom_eq, List.take_of_length_le (by simp)]

end StringTable

namespace File.EncodedIn

variable {file : File} {c : Contents} {name : String} {value : BitVec 64} {s : Symbol}

theorem bytes_of_mem_heapNames (hname : name ∈ heapNames) :
    name.toUTF8.data.toList.map UInt8.toBitVec = name.toList.map fun x => BitVec.ofNat 8 x.toNat := by
  revert name
  decide +kernel

theorem nameAt_beq_iff (hfile : file.EncodedIn c) (hname : name ∈ heapNames) :
    (file.names.nameAt s.name.toNat == name.toUTF8.data.toList.map UInt8.toBitVec) = true ↔ c.Bears name s := by
  rw [beq_iff_eq, bytes_of_mem_heapNames hname, StringTable.nameAt_eq, hfile.names]
  rfl

theorem symbol?_eq_some_iff (hfile : file.EncodedIn c) (hname : name ∈ heapNames) :
    file.symbol? name = some s ↔ FirstWith (c.Bears name) c.symbols s := by
  simp only [symbol?, List.find?_eq_some_iff_append, hfile.nameAt_beq_iff hname, hfile.symbols, FirstWith,
    Bool.not_eq_true', ← Bool.not_eq_true]

theorem symbol?_eq_none_iff (hfile : file.EncodedIn c) (hname : name ∈ heapNames) :
    file.symbol? name = none ↔ ∀ t ∈ c.symbols, ¬c.Bears name t := by
  simp only [symbol?, List.find?_eq_none, hfile.nameAt_beq_iff hname, hfile.symbols]

theorem heapOf_eq (file : File) :
    Image.heapOf file = heapNames.findSome? fun n => (file.symbol? n).map fun s => (n, s.value) := rfl

theorem heapOf_eq_some_iff (hfile : file.EncodedIn c) :
    Image.heapOf file = some (name, value) ↔ ∃ s, c.HeapSymbol (fun _ => True) name s ∧ s.value = value := by
  rw [heapOf_eq, List.findSome?_eq_some_iff]
  constructor
  · rintro ⟨before, n, after, hsplit, hn, hbefore⟩
    obtain ⟨s, hs, hpair⟩ := Option.map_eq_some_iff.1 hn
    obtain ⟨rfl, rfl⟩ := Prod.mk.inj hpair
    -- the names in front have no symbol at all
    have hmem : n ∈ heapNames := by simp [hsplit]
    have hfirst := (hfile.symbol?_eq_some_iff hmem).1 hs
    refine ⟨s, ⟨⟨⟨s, hfirst.mem, trivial, hfirst.1⟩, before, after, hsplit, fun n' hn' => ?_⟩, ?_⟩, rfl⟩
    · have hnone := (hfile.symbol?_eq_none_iff (by simp [hsplit, hn'])).1 (Option.map_eq_none_iff.1 (hbefore n' hn'))
      rintro ⟨t, ht, -, hbears⟩
      exact hnone t ht hbears
    · simpa only [true_and] using hfirst
  · rintro ⟨s, ⟨⟨-, before, after, hsplit, hbefore⟩, hfirst⟩, rfl⟩
    simp only [true_and] at hfirst hbefore
    refine ⟨before, name, after, hsplit, ?_, fun n' hn' => ?_⟩
    · rw [(hfile.symbol?_eq_some_iff (by simp [hsplit])).2 hfirst, Option.map_some]
    · rw [Option.map_eq_none_iff, hfile.symbol?_eq_none_iff (by simp [hsplit, hn'])]
      exact fun t ht hbears => hbefore n' hn' ⟨t, ht, hbears⟩

theorem heapOf_eq_none_iff (hfile : file.EncodedIn c) :
    Image.heapOf file = none ↔ ∀ n ∈ heapNames, ∀ t ∈ c.symbols, ¬c.Bears n t := by
  rw [heapOf_eq, List.findSome?_eq_none_iff]
  refine forall₂_congr fun n hn => ?_
  rw [Option.map_eq_none_iff, hfile.symbol?_eq_none_iff hn]

end File.EncodedIn

namespace Contents.HeapSymbol

variable {c : Contents} {counts : Symbol → Prop} {n n' : String} {s s' : Symbol}

theorem unique (h : c.HeapSymbol counts n s) (h' : c.HeapSymbol counts n' s') : n = n' ∧ s = s' := by
  obtain rfl := h.preferred.unique h'.preferred
  exact ⟨rfl, h.first.unique h'.first⟩

theorem exists_iff : (∃ n s, c.HeapSymbol counts n s) ↔ ∃ n ∈ heapNames, ∃ s ∈ c.symbols, counts s ∧ c.Bears n s := by
  constructor
  · rintro ⟨n, s, h⟩
    exact ⟨n, h.preferred.mem, s, h.first.mem, h.first.1⟩
  · rintro ⟨n, hn, hs⟩
    obtain ⟨n', hn'⟩ := FirstWith.exists_of_mem (p := fun n => ∃ t ∈ c.symbols, counts t ∧ c.Bears n t) hn hs
    obtain ⟨t, ht, htn⟩ := hn'.1
    obtain ⟨s, hs⟩ := FirstWith.exists_of_mem (p := fun t => counts t ∧ c.Bears n' t) ht htn
    exact ⟨n', s, hn', hs⟩

/-- A symbol that is the first of all is the first of fewer as well, if it is among them. -/
theorem mono {counts' : Symbol → Prop} (h : c.HeapSymbol counts n s) (hs : counts' s)
    (hsub : ∀ t, counts' t → counts t) : c.HeapSymbol counts' n s where
  preferred := h.preferred.mono ⟨s, h.first.mem, hs, h.first.1.2⟩ fun _ ⟨t, ht, hcounts, hbears⟩ =>
    ⟨t, ht, hsub t hcounts, hbears⟩
  first := h.first.mono ⟨hs, h.first.1.2⟩ fun t ⟨hcounts, hbears⟩ => ⟨hsub t hcounts, hbears⟩

/-- Nothing changes for fewer symbols if the one that is the first of all is always among them. -/
theorem iff_of_all {counts' : Symbol → Prop} (hall : ∀ n s, c.HeapSymbol counts n s → counts' s)
    (hsub : ∀ t, counts' t → counts t) : c.HeapSymbol counts n s ↔ c.HeapSymbol counts' n s := by
  constructor
  · intro h
    exact h.mono (hall n s h) hsub
  · intro h
    obtain ⟨n', s', h'⟩ := exists_iff.2 ⟨n, h.preferred.mem, s, h.first.mem, hsub s h.first.1.1, h.first.1.2⟩
    obtain ⟨rfl, rfl⟩ := h.unique (h'.mono (hall n' s' h') hsub)
    exact h'

end Contents.HeapSymbol

namespace Image

variable {reader : Contents → Option File} {c : Contents} {image : Image}

theorem heap_of_readWith (hreader : File.ReadsEncoded reader) (h : readWith reader c = .ok image) :
    ∃ file : File, file.EncodedIn c ∧ image.heap = heapOf file := by
  obtain ⟨file, hfile, himage⟩ := readWith_eq_ok_iff.1 h
  obtain ⟨hformat, -, -, himage⟩ := ofFile_eq_ok_iff.1 himage
  exact ⟨file, hreader c file hfile hformat, congrArg heap himage⟩

/-- The heap of an image starts at the first symbol of the first name that any symbol has. No symbol is passed over
because it is a reference only; the definitions alone decide where the symbol that is taken is one of them. -/
theorem heap_at_first_symbol (hreader : File.ReadsEncoded reader) (h : readWith reader c = .ok image) :
    (∀ name value, image.heap = some (name, value) ↔
      ∃ s, c.HeapSymbol (fun _ => True) name s ∧ s.value = value) ∧
    (image.heap = none ↔ ∀ name ∈ heapNames, ∀ s ∈ c.symbols, ¬c.Bears name s) ∧
    ((∀ name s, c.HeapSymbol (fun _ => True) name s → s.IsDefined) →
      (∀ name value, image.heap = some (name, value) ↔
        ∃ s, c.HeapSymbol Symbol.IsDefined name s ∧ s.value = value) ∧
      (image.heap = none ↔ ∀ name ∈ heapNames, ∀ s ∈ c.symbols, s.IsDefined → ¬c.Bears name s)) := by
  obtain ⟨file, hfile, hheap⟩ := heap_of_readWith hreader h
  rw [hheap]
  refine ⟨fun name value => hfile.heapOf_eq_some_iff, hfile.heapOf_eq_none_iff, fun hdefined => ?_⟩
  have hsame (n : String) (s : Symbol) :
      c.HeapSymbol (fun _ => True) n s ↔ c.HeapSymbol Symbol.IsDefined n s :=
    Contents.HeapSymbol.iff_of_all hdefined fun _ _ => trivial
  constructor
  · intro name value
    simp only [hfile.heapOf_eq_some_iff, hsame]
  · have hexists : (∃ n s, c.HeapSymbol (fun _ => True) n s) ↔ ∃ n s, c.HeapSymbol Symbol.IsDefined n s := by
      simp only [hsame]
    rw [Contents.HeapSymbol.exists_iff, Contents.HeapSymbol.exists_iff] at hexists
    rw [hfile.heapOf_eq_none_iff]
    simpa using not_congr hexists

/-- A file without segments. Of each of its symbols the list has the place of the name in "end", "_end", the section
and the value. -/
def fileOfSymbols (symbols : List (Nat × Nat × Nat)) : Contents :=
  .ofNumbers <|
    [(4, 0x464C457F), (1, 2), (1, 1), (1, 1), (9, 0), (2, 2), (2, 183), (4, 1), (8, 0x400000), (8, 0), (8, 64), (4, 0),
      (2, 64), (2, 56), (2, 0), (2, 64), (2, 3), (2, 2)] ++
    [(64, 0)] ++
    [(4, 0), (4, 2), (8, 0), (8, 0), (8, 272), (8, 24 * (symbols.length + 1)), (4, 2), (4, 0), (8, 8), (8, 24)] ++
    [(4, 0), (4, 3), (8, 0), (8, 0), (8, 256), (8, 10), (4, 0), (4, 0), (8, 1), (8, 0)] ++
    [(1, 0), (4, 0x646E65), (5, 0x646E655F), (6, 0), (24, 0)] ++
    symbols.flatMap fun s => [(4, s.1), (2, 0), (2, s.2.1), (8, s.2.2), (8, 0)]

/-- The name that is preferred is behind the other one in the table. -/
theorem heap_at_preferred_name :
    let c := fileOfSymbols [(5, 0xFFF1, 0x5000), (1, 0xFFF1, 0x6000)]
    ∃ image, readWith File.read? c = .ok image ∧ image.heap = some ("end", 0x6000#64) ∧
      ∃ s, c.HeapSymbol Symbol.IsDefined "end" s ∧ s.value = 0x6000#64 := by
  intro c
  have hread : readWith File.read? c = .ok ⟨0x400000#64, [], some ("end", 0x6000#64)⟩ := by decide +kernel
  have hdefined : ∀ name ∈ heapNames, ∀ s ∈ c.symbols, c.Bears name s → s.IsDefined := by decide +kernel
  obtain ⟨-, -, hdefinitions⟩ := heap_at_first_symbol File.readsEncoded_read? hread
  obtain ⟨hsome, -⟩ := hdefinitions fun name s h => hdefined name h.preferred.mem s h.first.mem h.first.1.2
  exact ⟨_, hread, rfl, (hsome "end" 0x6000#64).1 rfl⟩

/-- A reference to "end" hides the definition of "_end", and the heap starts at zero. -/
theorem heap_at_undefined_symbol :
    let c := fileOfSymbols [(1, 0, 0), (5, 0xFFF1, 0x5000)]
    ∃ image, read c = .ok image ∧ image.heap = some ("end", 0#64) ∧
      (∀ s ∈ c.symbols, s.IsDefined → ¬c.Bears "end" s) ∧
      ∃ s, c.HeapSymbol Symbol.IsDefined "_end" s ∧ s.value = 0x5000#64 := by
  intro c
  have hread : read c = .ok ⟨0x400000#64, [], some ("end", 0#64)⟩ := by decide +kernel
  have hsymbols : c.symbols = [⟨0#32, 0#16, 0#64⟩, ⟨1#32, 0#16, 0#64⟩, ⟨5#32, 0xFFF1#16, 0x5000#64⟩] := by
    decide +kernel
  have hnames : c.symbolNames = [0#8, 0x65#8, 0x6E#8, 0x64#8, 0#8, 0x5F#8, 0x65#8, 0x6E#8, 0x64#8, 0#8] := by
    decide +kernel
  refine ⟨_, hread, rfl, ?_, ⟨5#32, 0xFFF1#16, 0x5000#64⟩, ⟨⟨?_, ["end", "__end__"], [], rfl, ?_⟩,
    ⟨?_, [⟨0#32, 0#16, 0#64⟩, ⟨1#32, 0#16, 0#64⟩], [], hsymbols, ?_⟩⟩, rfl⟩
  all_goals
    simp only [hsymbols, Contents.Bears, hnames]
    decide +kernel

end Image
end AArch64.Elf
