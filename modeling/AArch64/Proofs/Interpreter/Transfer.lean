import AArch64.Interpreter.Transfer
import AArch64.Proofs.Decoding.Transfer
import AArch64.Proofs.Interpreter.Integer
import AArch64.Proofs.Interpreter.Lanes
import AArch64.Proofs.Interpreter.Memory
import AArch64.Proofs.Vectors.Lanewise

/-! The executors of loads and stores carry out the decoded transfers. -/
namespace AArch64

open Masked

theorem byteCount?_eq {scale : Nat} (h : scale < 64) : byteCount? scale = some (2 ^ scale) := by
  have hpow : 2 ^ scale < 2 ^ 64 := Nat.pow_lt_pow_right Nat.one_lt_two h
  rw [byteCount?, shiftLeft?_eq _ h, Option.map_some, BitVec.toNat_shiftLeft, Nat.shiftLeft_eq]
  exact congrArg some ((congrArg (· % 2 ^ 64) (Nat.one_mul _)).trans (Nat.mod_eq_of_lt hpow))

theorem bits_le_of_pow {k : Nat} (hk : k ≤ 3) : 8 * 2 ^ k ≤ 64 := by
  have hpow := Nat.pow_le_pow_right Nat.two_pos hk
  omega

theorem pow_eq_of_le {k : Nat} (hk : k ≤ 3) : 2 ^ k = 1 ∨ 2 ^ k = 2 ∨ 2 ^ k = 4 ∨ 2 ^ k = 8 := by
  match k with
  | 0 | 1 | 2 | 3 => decide

theorem lane_zero_le {k : Nat} (hk : k ≤ 3) : (0 + 1) * (8 * 2 ^ k) ≤ 128 := by
  have hbits := bits_le_of_pow hk
  omega

namespace Attempt

variable {α β : Type} {w : InstructionWord} {m : Machine} {t : Transferred} {a : α} {x : Attempt α} {c : Core}

/-- The computation ends with the value, or in the fault that a transfer leaves, and works on nothing but the core. -/
def Ends (m : Machine) (t : Transferred) (a : α) (x : Attempt α) : Prop :=
  x m.raw =
    match t with
    | (c, none) => some (.ok a, (m.withCore c).raw)
    | (c, some fault) => some (.error .memoryException, { m with core := c, fault := some fault : Machine }.raw)

namespace Ends

theorem done (c : Core) : Ends (m.withCore c) (c, none) a (pure a) := rfl

theorem step {y : Attempt β} {v : β} {f : β → Attempt α} (hy : y m.raw = some (.ok v, (m.withCore c).raw))
    (hf : Ends (m.withCore c) t a (f v)) : Ends m t a (y >>= f) :=
  bind_raw hy hf

theorem read {y : Attempt β} {v : β} {f : β → Attempt α} (hy : y m.raw = some (.ok v, m.raw))
    (hf : Ends m t a (f v)) : Ends m t a (y >>= f) :=
  bind_raw hy hf

theorem thenPure {y : Attempt Unit} (hy : Ends m t () y) : Ends m t a (y >>= fun _ => pure a) := by
  refine (congrArg (Attempt.andThen · _) hy).trans ?_
  obtain ⟨c, _ | fault⟩ := t <;> rfl

theorem andThen {y : Attempt Unit} {f : Attempt α} {g : Core → Transferred} (hy : Ends m t () y)
    (hf : t.2 = none → Ends (m.withCore t.1) (g t.1) a f) : Ends m (t.andThen g) a (y >>= fun _ => f) := by
  obtain ⟨c, _ | fault⟩ := t
  · exact bind_raw hy (hf rfl)
  · have hy : y m.raw = _ := hy
    exact congrArg (andThen · _) hy

theorem carriesOut {op : TransferOp} {x : Attempt Completion} (h : Ends m (op.execute m.core) .ready x) :
    CarriesOut m .transfer (.ok op) x := by
  have hx : x m.raw = _ := h
  rw [CarriesOut, hx, Except.map, Machine.executeDecoded, Instruction.execute]
  obtain ⟨c, _ | fault⟩ := op.execute m.core <;> rfl

end Ends

theorem checkMemory_ends : Ends m m.core.settle () checkMemory := by
  have hmemory : m.raw.memory = m.core.memory := rfl
  unfold Ends checkMemory Core.settle
  rw [hmemory]
  obtain ⟨_ | fault, memory⟩ := m.core.memory.takeFault <;> rfl

theorem move_raw (h : m.core.memory.CacheInRange) (kind : TransferKind) (a : BitVec 64) {k : Nat}
    (hk : k ≤ if kind.isVector then 4 else 3) (rt : Register) :
    move kind a (2 ^ k) rt m.raw = some (.ok (), (m.withCore (m.core.move kind a (2 ^ k) rt)).raw) := by
  have hwrite {n : Nat} (x : BitVec n) (s : State) : s.write rt (x.setWidth 64) = s.write rt x := by
    simp [State.write]
  cases kind with
  | store => exact bind_raw (readX_raw _ _ _) <| storeInteger_raw h a hk _
  | load =>
    refine bind_raw (loadInteger_raw h a hk) <| (writeX_raw _ _ _).trans ?_
    rw [hwrite]
    rfl
  | loadSigned width =>
    refine bind_raw (loadInteger_raw h a hk) <| bind_raw (checked_raw (signExtended?_setWidth _ ?_ (bits_le_of_pow hk))) <|
      (writeX_raw _ _ _).trans ?_
    · exact Nat.mul_pos (by decide) (Nat.two_pow_pos k)
    · rw [setWidth_signExtend _ width.bits_le]
      rfl
  | prefetch => rfl
  | storeVector =>
    refine bind_raw (readV_raw _) ?_
    obtain h3 | rfl : k ≤ 3 ∨ k = 4 := Nat.le_or_eq_of_le_succ hk
    · rw [if_pos (pow_eq_of_le h3)]
      refine bind_raw (checked_raw (Lanes.get?_eq _ (lane_zero_le h3))) <| (writeMemory_raw h a _ _).trans ?_
      rw [Lanes.get_zero, Memory.write_setWidth]
      rfl
    · exact writeMemory_raw h a 16 _
  | loadVector =>
    obtain h3 | rfl : k ≤ 3 ∨ k = 4 := Nat.le_or_eq_of_le_succ hk
    · rw [move, if_pos (pow_eq_of_le h3)]
      refine bind_raw (readMemory_raw h a _) <| bind_raw (checked_raw (Lanes.set?_eq _ _ (lane_zero_le h3))) <|
        (writeV_raw _ _).trans ?_
      rw [Lanes.set_zero]
      rfl
    · refine bind_raw (readMemory_raw h a 16) <| (writeV_raw _ _).trans ?_
      simp only [Core.move, Core.load, BitVec.setWidth_eq]
      rfl

theorem transfer_ends (h : m.core.memory.CacheInRange) (kind : TransferKind) (a : BitVec 64) {k : Nat}
    (hk : k ≤ if kind.isVector then 4 else 3) (rt : Register) :
    Ends m (m.core.transfer kind a (2 ^ k) rt) () (transfer kind a (2 ^ k) rt) :=
  .step (move_raw h kind a hk rt) (checkMemory_ends (m := m.withCore _))

theorem Ends.transferThen {f : Attempt α} {g : Core → Transferred} (h : m.core.memory.CacheInRange) {kind : TransferKind}
    {a : BitVec 64} {size : Nat} (hsize : kind.Fits size) {rt : Register} {v : α}
    (hf : ∀ c : Core, c.memory.CacheInRange → Ends (m.withCore c) (g c) v f) :
    Ends m ((m.core.transfer kind a size rt).andThen g) v (Attempt.transfer kind a size rt >>= fun _ => f) := by
  obtain ⟨k, hk, rfl⟩ := hsize
  exact .andThen (transfer_ends h kind a hk rt) fun _ =>
    hf _ ((m.core.agree_transfer kind a (2 ^ k) rt).accesses.cacheInRange h)

theorem readBase_raw : readBase w m.raw = some (.ok (m.core.base w.rn), m.raw) := readX_raw _ _ _

theorem writeBase_raw (x : BitVec 64) : writeBase w x m.raw = some (.ok (), (m.withCore (m.core.setBase w.rn x)).raw) :=
  writeX_raw _ _ _

theorem indexed_eq (indexing : Indexing) (base offset : BitVec 64) :
    (if indexing == .postIndex then base else base + offset) = Core.indexed indexing base offset := by
  cases indexing <;> rfl

theorem writeBack_ends (indexing : Indexing) (x : BitVec 64) :
    Ends m (m.core.writeBack indexing w.rn x, none) Completion.ready
      (if indexing.writesBack then writeBase w x >>= fun _ => pure .ready else pure .ready) := by
  rw [Core.writeBack]
  split
  · exact .step (writeBase_raw x) (.done _)
  · rfl

theorem transferLiteral_eq (h : m.core.memory.CacheInRange) {kind : TransferKind} {size : Nat} (hsize : kind.Fits size) :
    CarriesOut m .transfer (.ok (.literal kind size w.rd (w.offset 23 5 <<< 2))) (transferLiteral w kind size) := by
  obtain ⟨k, hk, rfl⟩ := hsize
  exact Ends.carriesOut <| .read (signedField_raw (by decide)) <| .read readPc_raw <| .thenPure (transfer_ends h kind _ hk _)

theorem loadLiteral_eq (h : m.core.memory.CacheInRange) :
    CarriesOut m .transfer (TransferOp.decodeLiteral w) (loadLiteral w) := by
  refine .ite (fun _ => .error_ite .unallocated .notYetImplemented) fun _ => ?_
  generalize w.number 31 30 = opc, w.bit 26 = vector
  split
  next => exact transferLiteral_eq h ⟨2, by decide, rfl⟩
  next => exact transferLiteral_eq h ⟨3, by decide, rfl⟩
  next => exact transferLiteral_eq h ⟨2, by decide, rfl⟩
  next => (try split) <;> first | contradiction | exact rfl
  next => exact transferLiteral_eq h ⟨2, by decide, rfl⟩
  next => exact transferLiteral_eq h ⟨3, by decide, rfl⟩
  next => exact transferLiteral_eq h ⟨4, by decide, rfl⟩
  next => (try split) <;> first | contradiction | exact .unallocated

theorem storeIfArmed_ends (h : m.core.memory.CacheInRange) {size : Nat} (hsize : TransferKind.store.Fits size) :
    Ends m (m.core.storeExclusive size w.rm w.rd w.rn) .ready (storeIfArmed w (m.core.base w.rn) size) := by
  have htake : takeMonitor m.raw = some (.ok m.core.monitor, (m.withCore { m.core with monitor := none }).raw) := rfl
  refine .step htake ?_
  rw [Core.storeExclusive]
  by_cases harmed : m.core.monitor = some (m.core.base w.rn, size)
  · simp only [if_pos harmed, beq_iff_eq.2 harmed, if_true]
    have hcleared : (m.withCore { m.core with monitor := none }).core.memory.CacheInRange := h
    exact Ends.transferThen hcleared hsize fun c _ => .step (writeX_raw (m := m.withCore c) _ _ _) (.done _)
  · simp only [if_neg harmed, beq_eq_false_iff_ne.2 harmed, Bool.false_eq_true, if_false]
    exact .step (writeX_raw _ _ _) (.done _)

theorem loadStoreExclusive_eq (h : m.core.memory.CacheInRange) :
    CarriesOut m .transfer (TransferOp.decodeExclusive w) (loadStoreExclusive w) := by
  have hlt : w.number 31 30 < 4 := w.number_lt 31 30
  have hle : w.number 31 30 ≤ 3 := Nat.le_of_lt_succ hlt
  have hsize (kind : TransferKind) (hk : kind.isVector = false) : kind.Fits (2 ^ w.number 31 30) :=
    ⟨_, by rwa [hk], rfl⟩
  refine .unallocatedIf fun _ => .read (checked_raw (byteCount?_eq (by omega))) ?_
  refine .ite (fun _ => .notYetImplemented) fun _ => .ite (fun _ => ?_) fun _ => .read readBase_raw ?_
  · have hbase : Core.indexed .offset (m.core.base w.rn) 0#64 = m.core.base w.rn := BitVec.add_zero _
    refine .read readBase_raw <| Ends.carriesOut ?_
    rw [TransferOp.execute, Core.transferSingle, AddressOffset.value, hbase]
    exact Ends.transferThen h (hsize _ (by split <;> rfl)) fun c _ => .done c
  · refine .ite (fun _ => Ends.carriesOut ?_) fun _ => ?_
    · rw [TransferOp.execute, Core.loadExclusive]
      exact Ends.transferThen h (hsize .load rfl) fun c _ => rfl
    · exact .unallocatedIf fun _ => Ends.carriesOut (storeIfArmed_ends h (hsize .store rfl))

/-- The offset of a pair, which has seven bits before it is scaled, is that of 64-bit arithmetic. -/
theorem signed?_pairOffset (size : Nat) (hsize : size ≤ 16) :
    signed? 64 ((w.offset 21 15).toInt * size) = some ((w.offset 21 15).toInt * size) := by
  have htop : (w.offset 21 15).toInt = (w.extractLsb 21 15).toInt := BitVec.toInt_signExtend_of_le (by decide)
  have hlow : -2 ^ 6 ≤ (w.extractLsb 21 15).toInt := BitVec.le_toInt _
  have hhigh : (w.extractLsb 21 15).toInt < 2 ^ 6 := BitVec.toInt_lt
  have hnumber : (w.offset 21 15).toInt.natAbs ≤ 64 := by omega
  have hmul : ((w.offset 21 15).toInt * size).natAbs ≤ 64 * 16 := Lane.natAbs_mul_le hnumber (by simpa using hsize)
  exact if_pos (by omega)

theorem loadStorePair_eq (h : m.core.memory.CacheInRange) :
    CarriesOut m .transfer (TransferOp.decodePair w) (loadStorePair w) := by
  unfold TransferOp.decodePair loadStorePair
  cases hkind : TransferOp.pairKind w with
  | error e => exact .error e
  | ok k =>
    obtain ⟨kind, size⟩ := k
    obtain ⟨_, hsize⟩ := TransferOp.yields_pairKind w _ hkind
    have hle : size ≤ 16 := by
      obtain ⟨k, hk, rfl⟩ := hsize
      have hk : k ≤ 4 := Nat.le_trans hk (by split <;> decide)
      exact Nat.pow_le_pow_right Nat.two_pos hk
    refine .unallocatedIf fun _ => .unallocatedIf fun _ => .read (signedField_raw (by decide)) ?_
    refine .read (checked_raw (signed?_pairOffset size hle)) <| .read readBase_raw <| Ends.carriesOut ?_
    have hoffset : BitVec.ofInt 64 ((w.offset 21 15).toInt * size) = w.offset 21 15 * BitVec.ofNat 64 size := by
      rw [BitVec.ofInt_mul, BitVec.ofInt_toInt, BitVec.ofInt_natCast]
    rw [TransferOp.execute, Core.transferPair, hoffset, ← indexed_eq]
    exact Ends.transferThen h hsize fun c hc => Ends.transferThen hc hsize fun d _ => writeBack_ends _ _

theorem singleOffset_raw (kind : TransferKind) {scale : Nat} (hscale : scale ≤ 4) :
    singleOffset w kind scale m.raw =
      some (((TransferOp.singleAddress w kind scale).map fun a => (a.1, a.2.value m.state)).mapError DecodeError.kind,
        m.raw) := by
  have hguard (c : Bool) (indexing : Indexing) :
      (if c then unallocated else pure (indexing, w.offset 20 12) : Attempt (Indexing × BitVec 64)) m.raw =
        some ((((if c then .error .unallocated else .ok (indexing, .immediate (w.offset 20 12)) :
          Except DecodeError (Indexing × AddressOffset))).map fun a => (a.1, a.2.value m.state)).mapError DecodeError.kind,
          m.raw) := by
    cases c <;> rfl
  unfold singleOffset TransferOp.singleAddress
  cases w.bit 24 with
  | true => exact bind_raw (checked_raw (shiftLeft?_eq _ (by omega))) rfl
  | false =>
    cases w.bit 21 with
    | false =>
      refine bind_raw (signedField_raw (by decide)) ?_
      have hform : w.number 11 10 = 0 ∨ w.number 11 10 = 1 ∨ w.number 11 10 = 2 ∨ w.number 11 10 = 3 := by
        have hlt : w.number 11 10 < 4 := w.number_lt 11 10
        omega
      generalize w.number 11 10 = form at hform
      simp only [Bool.not_false, Bool.false_eq_true, if_false, if_true]
      obtain rfl | hform := hform
      · rfl
      · obtain rfl | rfl | rfl := hform <;> exact hguard _ _
    | true =>
      simp only [Bool.not_true, Bool.false_eq_true, if_false]
      split
      · rfl
      · split
        · rfl
        · exact bind_raw (readX_raw _ _ _) <| bind_raw (checked_raw (Extension.extended?_eq _ _ _)) rfl

theorem loadStoreRegister_eq (h : m.core.memory.CacheInRange) :
    CarriesOut m .transfer (TransferOp.decodeSingle w) (loadStoreRegister w) := by
  unfold TransferOp.decodeSingle loadStoreRegister
  cases hkind : TransferOp.singleKind w with
  | error e => exact .error e
  | ok k =>
    obtain ⟨kind, scale⟩ := k
    obtain ⟨_, hscale⟩ := TransferOp.yields_singleKind w _ hkind
    have hle : scale ≤ 4 := Nat.le_trans hscale (by split <;> decide)
    refine .read rfl <| .read (checked_raw (byteCount?_eq (by omega))) ?_
    simp only
    have hoffset := singleOffset_raw (w := w) (m := m) kind hle
    cases haddress : TransferOp.singleAddress w kind scale with
    | error e =>
      rw [haddress] at hoffset
      exact .fails hoffset
    | ok a =>
      obtain ⟨indexing, offset⟩ := a
      rw [haddress] at hoffset
      refine .read hoffset <| .unallocatedIf fun _ => .read readBase_raw <| Ends.carriesOut ?_
      rw [TransferOp.execute, Core.transferSingle, ← indexed_eq]
      exact Ends.transferThen h ⟨scale, hscale, rfl⟩ fun c _ => writeBack_ends _ _

theorem transferElement_raw (h : m.core.memory.CacheInRange) (load : Bool) (a : BitVec 64) {k i : Nat} (hk : k ≤ 3)
    (t : Register) (hi : (i + 1) * (8 * 2 ^ k) ≤ 128) :
    transferElement load a (2 ^ k) t i m.raw = some (.ok (), (m.withCore (m.core.moveLane load (2 ^ k) a t i)).raw) := by
  refine bind_raw (readV_raw t) ?_
  have hbits := bits_le_of_pow hk
  cases load with
  | true =>
    refine bind_raw (loadInteger_raw h a hk) <| bind_raw (checked_raw (Lanes.set?_eq _ _ hi)) <| (writeV_raw _ _).trans ?_
    rw [BitVec.setWidth_setWidth_of_le _ hbits, BitVec.setWidth_eq]
    rfl
  | false =>
    refine bind_raw (checked_raw (Lanes.get?_eq _ hi)) <| (storeInteger_raw h a hk _).trans ?_
    rw [Memory.write, Word.bytes_setWidth_of_le _ hbits]
    rfl

theorem transferElements_raw (h : m.core.memory.CacheInRange) (load : Bool) {k : Nat} (hk : k ≤ 3)
    {lanes : List (Register × Nat)} (hlanes : ∀ t ∈ lanes, (t.2 + 1) * (8 * 2 ^ k) ≤ 128) (a : BitVec 64) :
    transferElements load (2 ^ k) lanes a m.raw =
      some (.ok (), (m.withCore (Core.moveLanes load (2 ^ k) lanes a m.core)).raw) := by
  induction lanes generalizing a m with
  | nil => rfl
  | cons t rest ih =>
    have hagree := m.core.agree_moveLane (f := Footprint.full) load (2 ^ k) a t.1 t.2 rfl fun _ => rfl
    have hfirst := transferElement_raw h load a hk t.1 (hlanes t (by simp))
    exact bind_raw hfirst <| ih (m := m.withCore _) (hagree.accesses.cacheInRange h) (fun u hu => hlanes u (by simp [hu])) _

theorem halve_raw (rts : List Register) : halve rts m.raw = some (.ok (), (m.withCore (m.core.halve rts)).raw) := by
  induction rts generalizing m with
  | nil => rfl
  | cons t rest ih => exact bind_raw (readV_raw t) <| bind_raw (checked_raw rfl) <| bind_raw (writeV_raw t _) ih

theorem getLsbD_copies {esize i : Nat} (hpos : 0 < esize) (hdvd : esize ∣ 64) (x : BitVec 64) (hi : i < 128) :
    (Bits.replicate x esize ++ Bits.replicate x esize).getLsbD i = x.getLsbD (i % esize) := by
  rw [BitVec.getLsbD_append]
  by_cases hlow : i < 64
  · rw [if_pos hlow, Bits.getLsbD_replicate x hpos hlow]
  · have hmod : (i - 64) % esize = i % esize := by
      obtain ⟨q, hq⟩ := hdvd
      rw [hq]
      exact Nat.sub_mul_mod (by omega)
    rw [if_neg hlow, Bits.getLsbD_replicate x hpos (by omega), hmod]

/-- One element in every lane of a register, out of copies of it in 64 bits. -/
theorem replicated_eq {esize n : Nat} {full : Bool} (hpos : 0 < esize) (hdvd : esize ∣ 64) (x : BitVec esize)
    (hn : n * esize = if full then 128 else 64) :
    let copies := Bits.replicate (x.setWidth 64) esize
    (if full then copies ++ copies else copies.setWidth 128) = Lanes.build n fun _ => x := by
  intro copies
  have hfits : n * esize ≤ 128 := by
    rw [hn]
    split <;> decide
  have hsized : Lanes.build n (fun _ => x) = Lanes.sized (copies ++ copies) full := by
    refine Lanes.eq_sized_of_get hn (Lanes.zeroFrom_build n _) fun i hi => ?_
    have hrange := Lanes.succ_mul_le hfits hi
    rw [Lanes.get_build _ hi hrange]
    apply BitVec.eq_of_getLsbD_eq
    intro j hj
    have hle : esize ≤ 64 := Nat.le_of_dvd (by decide) hdvd
    have hplace : i * esize + j < 128 := by
      rw [Nat.succ_mul] at hrange
      omega
    rw [Lanes.get, BitVec.getLsbD_extractLsb', getLsbD_copies hpos hdvd _ hplace, Nat.mul_add_mod', Nat.mod_eq_of_lt hj,
      BitVec.getLsbD_setWidth]
    simp [hj, Nat.lt_of_lt_of_le hj hle]
  rw [hsized]
  cases full with
  | true => rfl
  | false =>
    have hlow : (copies ++ copies).setWidth 64 = copies := by
      apply BitVec.eq_of_getLsbD_eq
      intro i hi
      rw [BitVec.getLsbD_setWidth, BitVec.getLsbD_append, if_pos hi, decide_eq_true hi, Bool.true_and]
    rw [Lanes.sized, if_neg Bool.false_ne_true, Lanes.clearFrom, hlow]
    rfl

theorem replicateElements_raw (h : m.core.memory.CacheInRange) {k : Nat} (hk : k ≤ 3) (full : Bool) (rts : List Register)
    (a : BitVec 64) :
    replicateElements (2 ^ k) full rts a m.raw =
      some (.ok (), (m.withCore (Core.loadReplicated (2 ^ k) full rts a m.core)).raw) := by
  have hpos : 0 < 8 * 2 ^ k := Nat.mul_pos (by decide) (Nat.two_pow_pos k)
  have hdvd : 8 * 2 ^ k ∣ 64 := by
    match k with
    | 0 | 1 | 2 | 3 => decide
  have hlanes : (if full then 16 else 8) / 2 ^ k * (8 * 2 ^ k) = if full then 128 else 64 := by
    match k with
    | 0 | 1 | 2 | 3 => cases full <;> rfl
  induction rts generalizing a m with
  | nil => rfl
  | cons t rest ih =>
    have hcopies := replicated_eq hpos hdvd (m.core.memory.read a (2 ^ k)).1 hlanes
    have hcache : (Core.loadReplicated (2 ^ k) full [t] a m.core).memory.CacheInRange :=
      (Core.agree_loadReplicated (f := Footprint.full) (2 ^ k) full [t] a m.core rfl fun _ _ => rfl).accesses.cacheInRange h
    refine bind_raw (loadInteger_raw h a hk) <| bind_raw (checked_raw (replicate?_eq _ hpos)) ?_
    rw [hcopies]
    exact bind_raw (writeV_raw t _) <| ih (m := m.withCore _) hcache _

theorem moveStructures_ends (h : m.core.memory.CacheInRange) {ebytes : Nat} {shape : StructureShape}
    (hfits : TransferOp.StructureFits w (ebytes, shape)) :
    Ends m (shape.move (w.bit 22) ebytes w.rd (w.bit 30) (m.core.base w.rn) m.core).settle ()
      (moveStructures w ebytes shape) := by
  obtain ⟨⟨k, hk, rfl⟩, hrange, _⟩ := hfits
  have hk : k ≤ 3 := hk
  refine .read readBase_raw ?_
  cases shape with
  | multiple repeats members elements =>
    have hlanes (t : Register × Nat) (ht : t ∈ interleaved w.rd repeats members elements) :
        (t.2 + 1) * (8 * 2 ^ k) ≤ 128 :=
      Lanes.succ_mul_le hrange (mem_consecutive_of_mem_interleaved ht).2
    refine .step (transferElements_raw h (w.bit 22) hk hlanes _) ?_
    rw [StructureShape.move]
    split
    · exact .step (halve_raw (m := m.withCore _) _) (checkMemory_ends (m := m.withCore _))
    · exact checkMemory_ends (m := m.withCore _)
  | lane members index =>
    have hlanes (t : Register × Nat) (ht : t ∈ (consecutive w.rd members).map fun t => (t, index)) :
        (t.2 + 1) * (8 * 2 ^ k) ≤ 128 := by
      obtain ⟨r, _, rfl⟩ := List.mem_map.1 ht
      exact hrange
    exact .step (transferElements_raw h (w.bit 22) hk hlanes _) (checkMemory_ends (m := m.withCore _))
  | replicated members =>
    exact .step (replicateElements_raw h hk (w.bit 30) _ _) (checkMemory_ends (m := m.withCore _))

theorem simdLoadStoreStructure_eq (h : m.core.memory.CacheInRange) :
    CarriesOut m .transfer (TransferOp.decodeStructures w) (simdLoadStoreStructure w) := by
  have hcases : TransferOp.decodeStructures w =
      if w.bit 31 then .error .unallocated
      else if !w.bit 23 && w.rm != 0#5 then .error .unallocated
      else
        (if w.bit 24 then TransferOp.singleStructure w else TransferOp.multipleStructures w).map fun s =>
          .structures (w.bit 22) s.1 w.rd w.rn (w.bit 30) s.2 (TransferOp.structureAdvance w) := by
    unfold TransferOp.decodeStructures
    generalize (if w.bit 24 then TransferOp.singleStructure w else TransferOp.multipleStructures w) = s
    cases w.bit 31 <;> cases s <;> rfl
  rw [hcases]
  refine .unallocatedIf fun _ => .unallocatedIf fun _ => ?_
  cases hshape : if w.bit 24 then TransferOp.singleStructure w else TransferOp.multipleStructures w with
  | error e => exact .error e
  | ok p =>
    obtain ⟨ebytes, shape⟩ := p
    have hfits := TransferOp.yields_structures w _ hshape
    refine .read rfl <| Ends.carriesOut ?_
    rw [TransferOp.execute, Core.transferStructures]
    refine .andThen (moveStructures_ends h hfits) fun _ => ?_
    rw [TransferOp.structureAdvance]
    cases w.bit 23 with
    | false => rfl
    | true =>
      by_cases hrm : w.rm == Register.stackPointer
      · simp only [hrm, Bool.not_true, Bool.false_eq_true, if_false, if_true]
        exact .read rfl <| .read readBase_raw <| .step (writeBase_raw _) (.done _)
      · simp only [hrm, Bool.not_true, Bool.false_eq_true, if_false, if_true]
        exact .read (readX_raw _ _ _) <| .read readBase_raw <| .step (writeBase_raw _) (.done _)

theorem loadStore_eq (h : m.core.memory.CacheInRange) :
    CarriesOut m .transfer (TransferOp.decode w) (loadStore w) := by
  have hkey : KeyTable.loadStore.key w < 8 := KeyTable.key_lt_entries _ w
  unfold TransferOp.decode loadStore dispatch
  generalize KeyTable.loadStore.key w = key at hkey
  match key with
  | 0 => exact loadStoreExclusive_eq h
  | 1 => exact simdLoadStoreStructure_eq h
  | 2 | 3 => exact loadLiteral_eq h
  | 4 | 5 => exact loadStorePair_eq h
  | 6 | 7 => exact loadStoreRegister_eq h

end Attempt
end AArch64
