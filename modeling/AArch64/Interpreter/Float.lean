import AArch64.Interpreter.Lanes
import AArch64.Simd.Float
import AArch64.StatusWords

/-! Floating-point operations as they are carried out. The arithmetic on numbers cannot fail. NaNs, immediates and integers
are taken apart and put together in words of 64 bits, by shifts that could. -/
namespace AArch64

open Masked

namespace Float

variable {p q : Precision}

def raw (x : Float p) : BitVec 64 := x.setWidth 64

def ofRaw (p : Precision) (x : BitVec 64) : Float p := x.setWidth p.bits

def isSignalling? (x : Float p) : Option Bool := do
  if isNaN x then
    let quiet ← bit? (raw x) (← sub? p.fractionBits 1)
    some !quiet
  else some false

def quieted? (x : Float p) : Option (Float p) := do
  some (ofRaw p (raw x ||| (← shiftLeft? 1#64 (← sub? p.fractionBits 1))))

def defaultNaN? (p : Precision) : Option (Float p) := do
  let exponent ← shiftLeft? (ones p.exponentBits) p.fractionBits
  some (ofRaw p (exponent ||| (← shiftLeft? 1#64 (← sub? p.fractionBits 1))))

def ofImmediate? (p : Precision) (imm : BitVec 32) : Option (Float p) := do
  let e := p.exponentBits
  let f := p.fractionBits
  let sign := (BitVec.ofBool (← bit? imm 7)).setWidth 64
  let b6 ← bit? imm 6
  let top ← shiftLeft? ((BitVec.ofBool !b6).setWidth 64) (← sub? e 1)
  let copies ← if b6 then do some (ones (← sub? e 3) <<< 2) else some 0#64
  let exponent := top ||| copies ||| (← bits? imm 4 5).setWidth 64
  let fraction ← shiftLeft? ((← bits? imm 0 3).setWidth 64) (← sub? f 4)
  some (ofRaw p ((← shiftLeft? sign (e + f)) ||| (← shiftLeft? exponent f) ||| fraction))

/-- The result that NaN operands force. The inner value is missing where all operands are numbers. -/
def propagated? (xs : List (Float p)) : Option (Option (Flagged (Float p))) := do
  match ← xs.findM? isSignalling? with
  | some x => some (some (Flagged.invalid (← quieted? x)))
  | none => some ((xs.find? isNaN).map pure)

def withNaNs? (xs : List (Float p)) (r : Option (Float p)) : Option (Flagged (Float p)) := do
  match ← propagated? xs with
  | some n => some n
  | none =>
    match r with
    | some y => some (pure y)
    | none => some (Flagged.invalid (← defaultNaN? p))

def isQuiet? (x : Float p) : Option Bool := do some (isNaN x && !(← isSignalling? x))

def Binary.result? (op : Binary) (a b : Float p) : Option (Flagged (Float p)) := do
  let oneQuiet := (← isQuiet? a) != (← isQuiet? b)
  if op.prefersNumber && oneQuiet then some (pure (if isNaN a then b else a))
  else
    let r ← withNaNs? [a, b] (op.onNumbers a b)
    some { r with raised := r.raised.raise { divideByZero := op.dividesByZero a b } }

def multiplyAdd? (addend a b : Float p) : Option (Flagged (Float p)) := withNaNs? [addend, a, b] (fma addend a b)

def squareRoot? (x : Float p) : Option (Flagged (Float p)) := withNaNs? [x] (sqrt x)

def roundToIntegral? (mode : Rounding) (x : Float p) : Option (Flagged (Float p)) :=
  withNaNs? [x] (some (integral mode x))

def objects? (signalling : Bool) (a b : Float p) : Option Bool := do
  some ((← isSignalling? a) || (← isSignalling? b) || signalling && (isNaN a || isNaN b))

/-- The pattern of the flags for each order. -/
def comparison (a b : Float p) : NzcvWord :=
  .ofNibble <| match order? a b with
    | none => 0b0011#32
    | some .eq => 0b0110#32
    | some .lt => 0b1000#32
    | some .gt => 0b0010#32

def compareRaising? (signalling : Bool) (a b : Float p) : Option (Flagged NzcvWord) := do
  some { value := comparison a b, raised := { invalidOperation := ← objects? signalling a b } }

def Relation.holdsRaising? (r : Relation) (a b : Float p) : Option (Flagged Bool) := do
  let invalidOperation ← objects? (r != equal) (r.operand a) (r.operand b)
  some { value := r.holds a b, raised := { invalidOperation } }

def payload? (q : Precision) (x : Float p) : Option (BitVec 64) := do
  let payload := raw (← quieted? x) &&& ones p.fractionBits
  if p.fractionBits ≤ q.fractionBits then shiftLeft? payload (q.fractionBits - p.fractionBits)
  else shiftRight? payload (p.fractionBits - q.fractionBits)

def convertNaN? (q : Precision) (x : Float p) : Option (Float q) := do
  let sign ← shiftRight? (raw x) (← sub? p.bits 1)
  let payload ← payload? q x
  some (ofRaw q ((← shiftLeft? sign (← sub? q.bits 1)) ||| raw (← defaultNaN? q) ||| payload))

def convert? (q : Precision) (x : Float p) : Option (Flagged (Float q)) := do
  if isNaN x then
    some { value := ← convertNaN? q x, raised := { invalidOperation := ← isSignalling? x } }
  else some (convert q x)

/-- The least integer is the opposite of the limit, which 128 bits have. -/
def toInteger? (x : Float p) (mode : Rounding) (signed : Bool) (n fbits : Nat) : Option (Flagged (BitVec n)) := do
  if isNaN x then some (Flagged.invalid 0#n)
  else
    let rounded := integral mode (scaled x fbits)
    let limit := ofInteger .double (2 ^ (← if signed then sub? n 1 else some n)) 0
    let lower := if signed then neg limit else zero .double
    if Relation.greaterEqual.holds rounded limit then
      let greatest := ones (← if signed then sub? n 1 else some n)
      some (Flagged.invalid (greatest.setWidth n))
    else if Relation.less.holds rounded lower then
      let least ← if signed then Lane.wide? (-truncated limit) else some 0
      some (Flagged.invalid (BitVec.ofInt n least))
    else some (pure (BitVec.ofInt n (truncated rounded)))

def ofInteger? (p : Precision) (signed : Bool) (x : BitVec 64) (n fbits : Nat) : Option (Float p) := do
  some (ofInteger p (← Lane.widened? signed x n) fbits)

end Float

def FloatLane.result? {p : Precision} (op : FloatLane) (a b acc : Float p) : Option (Flagged (Float p)) :=
  match op with
  | binary op => op.result? a b
  | multiplyAdd => Float.multiplyAdd? acc a b
  | multiplySub => Float.multiplyAdd? acc (Float.neg a) b
  | compare r => do
    let holds ← r.holdsRaising? a b
    some do pure (Lane.truth p.bits (← holds))

def FloatUnary.result? {p : Precision} (op : FloatUnary) (x : Float p) : Option (Flagged (Float p)) :=
  match op with
  | move => some (pure x)
  | abs => some (pure (Float.abs x))
  | neg => some (pure (Float.neg x))
  | sqrt => Float.squareRoot? x
  | round mode => Float.roundToIntegral? mode x
  | toInteger mode signed fbits => Float.toInteger? x mode signed p.bits fbits
  | fromInteger signed fbits => (Float.ofInteger? p signed (x.setWidth 64) p.bits fbits).map pure
  | compareZero r => do
    let holds ← r.holdsRaising? x (Float.zero p)
    some do pure (Lane.truth p.bits (← holds))

namespace FloatVectorOp

open Lanes

def lane? (p : Precision) (v : BitVec 128) (i : Nat) : Option (Float p) := get? v p.bits i

def pairLane? (p : Precision) (n m : BitVec 128) (elements i : Nat) : Option (Float p) :=
  VectorOp.pairLane? n m p.bits elements i

def flaggedScalar? {p : Precision} (r : Flagged (Float p)) : Option (Flagged (BitVec 128)) := do
  let v ← scalar? r.value
  some do
    let _ ← r
    pure v

def eval? (op : FloatVectorOp) (v : VectorOperands) : Option (Flagged (BitVec 128)) :=
  match op with
  | lanes op p elements =>
    buildFlagged? elements fun i => do
      op.result? (← lane? p v.n i) (← lane? p v.m i) (← lane? p v.d i)
  | byElement op p elements index =>
    buildFlagged? elements fun i => do
      op.result? (← lane? p v.n i) (← lane? p v.m index) (← lane? p v.d i)
  | pairwise op p elements =>
    buildFlagged? elements fun i => do
      op.result? (← pairLane? p v.n v.m elements (2 * i)) (← pairLane? p v.n v.m elements (2 * i + 1))
  | unary op p elements => buildFlagged? elements fun i => do op.result? (← lane? p v.n i)
  | convert p q => do flaggedScalar? (← Float.convert? q (← lane? p v.n 0))
  | widen upper =>
    buildFlagged? 2 fun i => do Float.convert? .double (← lane? .single v.n ((if upper then 2 else 0) + i))
  | narrow upper => do
    let r ← buildFlagged? 2 fun i => do Float.convert? .single (← lane? .double v.n i)
    let x ← VectorOp.half? v.d r.value upper
    some do
      let _ ← r
      pure x
  | reducePair op p => do flaggedScalar? (← op.result? (← lane? p v.n 0) (← lane? p v.n 1))
  | reduceFour op => do
    let low ← op.result? (← lane? .single v.n 0) (← lane? .single v.n 1)
    let high ← op.result? (← lane? .single v.n 2) (← lane? .single v.n 3)
    let r ← op.result? low.value high.value
    let x ← scalar? r.value
    some do
      let _ ← low
      let _ ← high
      let _ ← r
      pure x

end FloatVectorOp
end AArch64
