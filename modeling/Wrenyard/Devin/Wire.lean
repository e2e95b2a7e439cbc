import Mathlib.Data.Nat.Bitwise
import Mathlib.Tactic.Ring
import Wrenyard.Js.Json

/-!
# The wire codec of the Devin transport

`Writer` and `parseFields`.  A varint is written in the precision of `BigInt` and its field number is read back with
the 32-bit operators of JavaScript.  What is written with field numbers below 2^29 and safe integers is read back
field by field (`parseFields_encode`).
-/

namespace Wrenyard.Devin

open Js List

abbrev Bytes := List UInt8

def maxFrame : Nat := 16 * 1024 * 1024

/-- The loop of `varint`. -/
def varintBytes (v : Nat) : Bytes :=
  if v > 127 then UInt8.ofNat (v % 128 ||| 128) :: varintBytes (v >>> 7) else [UInt8.ofNat v]
termination_by v
decreasing_by
  rw [Nat.shiftRight_eq_div_pow]
  omega

def varint (n : Nat) : Except JsString Bytes :=
  if n > maxSafeInteger then .error (js "invalid protobuf integer") else .ok (varintBytes n)

def tag (field wire : Nat) (value : Option Nat) : Except JsString Bytes := do
  let head ← varint (field * 8 + wire)
  if wire = 2 then return head ++ (← varint (value.getD 0)) else return head

def littleEndian (bits : UInt64) : Bytes := (List.range 8).map fun i => UInt8.ofNat (bits.toNat >>> (8 * i))

/-- A call of a `Writer`. -/
inductive Write where
  | varint (field n : Nat)
  | string (field : Nat) (value : JsString)
  | bytes (field : Nat) (value : Bytes)
  /-- A number, by its bit pattern. -/
  | double (field : Nat) (bits : UInt64)
deriving DecidableEq, Repr

def Write.encode : Write → Except JsString Bytes
  | .varint field n => do return (← Devin.varint (field * 8)) ++ (← Devin.varint n)
  | .string field value => do return (← tag field 2 (some (encodeUtf8 value).length)) ++ encodeUtf8 value
  | .bytes field value => do return (← tag field 2 (some value.length)) ++ value
  | .double field bits => do return (← tag field 1 none) ++ littleEndian bits

/-- The calls of a `Writer` and `done()`. -/
def encode : List Write → Except JsString Bytes
  | [] => .ok []
  | w :: ws => do return (← w.encode) ++ (← encode ws)

structure Field where
  num : Nat
  wire : Nat
  n : Option Nat
  data : Option Bytes
deriving DecidableEq, Repr

/-- The loop of `readVarint`, with the iterations that are left, the shift and the value so far. -/
def readVarintFrom : Nat → Nat → Nat → Bytes → Except JsString (Nat × Bytes)
  | 0, _, _, _ => .error (js "oversized protobuf varint")
  | _ + 1, _, _, [] => .error (js "truncated protobuf varint")
  | fuel + 1, i, n, b :: rest =>
    let n := n ||| ((b.toNat &&& 127) <<< (i * 7))
    if b.toNat &&& 128 = 0 then
      if n > maxSafeInteger then .error (js "oversized protobuf integer") else .ok (n, rest)
    else readVarintFrom fuel (i + 1) n rest

def readVarint (input : Bytes) : Except JsString (Nat × Bytes) := readVarintFrom 10 0 0 input

/-- `key >>> 3` -/
def fieldNumber (key : Nat) : Nat := (key % 2 ^ 32) >>> 3

/-- One round of the loop of `parseFields`. -/
def parseField (input : Bytes) : Except JsString (Field × Bytes) := do
  let (key, input) ← readVarint input
  let num := fieldNumber key
  let wire := key &&& 7
  if num = 0 then throw (js "invalid protobuf field")
  if wire = 0 then
    let (n, input) ← readVarint input
    return (⟨num, wire, some n, none⟩, input)
  else if wire = 1 then
    if 8 > input.length then throw (js "truncated protobuf fixed64")
    return (⟨num, wire, none, none⟩, input.drop 8)
  else if wire = 2 then
    let (len, input) ← readVarint input
    if len > maxFrame ∨ len > input.length then throw (js "invalid protobuf field length")
    return (⟨num, wire, none, some (input.take len)⟩, input.drop len)
  else if wire = 5 then
    if 4 > input.length then throw (js "truncated protobuf fixed32")
    return (⟨num, wire, none, some (input.take 4)⟩, input.drop 4)
  else throw (js "unsupported protobuf wire type")

/-- The loop of `parseFields`; a round reads at least one byte. -/
def parseFieldsFrom : Nat → Bytes → Except JsString (List Field)
  | _, [] => .ok []
  | 0, _ :: _ => .ok []
  | fuel + 1, input => do
    let (field, input) ← parseField input
    return field :: (← parseFieldsFrom fuel input)

def parseFields (input : Bytes) : Except JsString (List Field) :=
  if input.length > maxFrame then .error (js "protobuf message exceeds 16 MiB")
  else parseFieldsFrom input.length input

theorem shiftRight_seven (v : Nat) : v >>> 7 = v / 128 := Nat.shiftRight_eq_div_pow v 7

variable {v : Nat}

theorem or_continue : v % 128 ||| 128 = v % 128 + 128 := by
  have h : v % 128 < 2 ^ 7 := Nat.mod_lt v (by decide)
  have hor := Nat.two_pow_add_eq_or_of_lt h 1
  have hsum : 128 + v % 128 = 128 ||| v % 128 := hor
  rw [Nat.or_comm, ← hsum]
  exact Nat.add_comm _ _

theorem varintBytes_last (h : v < 128) : varintBytes v = [UInt8.ofNat v] := by
  rw [varintBytes, if_neg (by omega)]

theorem varintBytes_more (h : 128 ≤ v) : varintBytes v = UInt8.ofNat (v % 128 + 128) :: varintBytes (v / 128) := by
  rw [varintBytes, if_pos (by omega), or_continue, shiftRight_seven]

theorem varintBytes_ne_nil (v : Nat) : varintBytes v ≠ [] := by
  by_cases h : v < 128
  · simp [varintBytes_last h]
  · simp [varintBytes_more (Nat.le_of_not_lt h)]

theorem and_payload (n : Nat) : n &&& 127 = n % 128 := Nat.and_two_pow_sub_one_eq_mod n 7

theorem toNat_low (h : v < 128) : (UInt8.ofNat v).toNat = v := by
  rw [UInt8.toNat_ofNat']
  omega

theorem toNat_high (v : Nat) : (UInt8.ofNat (v % 128 + 128)).toNat = v % 128 + 128 := by
  rw [UInt8.toNat_ofNat']
  omega

theorem and_continue_low (h : v < 128) : v &&& 128 = 0 := by
  apply Nat.eq_of_testBit_eq
  intro i
  rw [Nat.testBit_and, Nat.zero_testBit, show (128 : Nat) = 2 ^ 7 from rfl, Nat.testBit_two_pow]
  by_cases hi : 7 = i
  · subst hi
    have hbit : v.testBit 7 = false := Nat.testBit_lt_two_pow h
    simp [hbit]
  · simp [hi]

theorem and_continue_high (v : Nat) : (v % 128 + 128) &&& 128 ≠ 0 := by
  intro hzero
  have hbit := congrArg (fun n => n.testBit 7) hzero
  have hadd : v % 128 + 128 = 2 ^ 7 + v % 128 := by omega
  have hlow : (v % 128).testBit 7 = false := Nat.testBit_lt_two_pow (Nat.mod_lt v (by decide))
  simp only [Nat.testBit_and, Nat.zero_testBit] at hbit
  rw [hadd, Nat.testBit_two_pow_add_eq, hlow, show (128 : Nat) = 2 ^ 7 from rfl, Nat.testBit_two_pow_self] at hbit
  cases hbit

theorem or_shiftLeft {n : Nat} {i : Nat} (h : n < 2 ^ (i * 7))
    (a : Nat) : n ||| (a <<< (i * 7)) = a * 2 ^ (i * 7) + n := by
  rw [Nat.or_comm, ← Nat.shiftLeft_add_eq_or_of_lt h, Nat.shiftLeft_eq]

theorem readVarintFrom_varintBytes (fuel i n v : Nat) (rest : Bytes) (hn : n < 2 ^ (i * 7))
    (hfuel : v < 128 ^ (fuel + 1)) (hsafe : v * 2 ^ (i * 7) + n ≤ maxSafeInteger) :
    readVarintFrom (fuel + 1) i n (varintBytes v ++ rest) = .ok (v * 2 ^ (i * 7) + n, rest) := by
  induction fuel generalizing i n v with
  | zero =>
    have hlow : v < 128 := by simpa using hfuel
    rw [varintBytes_last hlow, singleton_append, readVarintFrom, toNat_low hlow, and_payload,
      Nat.mod_eq_of_lt hlow, or_shiftLeft hn]
    rw [if_pos (and_continue_low hlow), if_neg (by omega)]
  | succ fuel ih =>
    by_cases hlow : v < 128
    · rw [varintBytes_last hlow, singleton_append, readVarintFrom, toNat_low hlow, and_payload,
        Nat.mod_eq_of_lt hlow, or_shiftLeft hn]
      rw [if_pos (and_continue_low hlow), if_neg (by omega)]
    have hhigh : 128 ≤ v := Nat.le_of_not_lt hlow
    have hpow : 2 ^ ((i + 1) * 7) = 128 * 2 ^ (i * 7) := by
      rw [show (i + 1) * 7 = 7 + i * 7 by omega, Nat.pow_add]
    have hsplit : v / 128 * 2 ^ ((i + 1) * 7) + (v % 128 * 2 ^ (i * 7) + n) = v * 2 ^ (i * 7) + n := by
      have hv : v / 128 * 128 + v % 128 = v := Nat.div_add_mod' v 128
      calc v / 128 * 2 ^ ((i + 1) * 7) + (v % 128 * 2 ^ (i * 7) + n)
          = (v / 128 * 128 + v % 128) * 2 ^ (i * 7) + n := by rw [hpow]; ring
        _ = v * 2 ^ (i * 7) + n := by rw [hv]
    have hdigit : v % 128 * 2 ^ (i * 7) + n < 2 ^ ((i + 1) * 7) := by
      have hmod : v % 128 + 1 ≤ 128 := Nat.mod_lt v (by decide)
      calc v % 128 * 2 ^ (i * 7) + n < v % 128 * 2 ^ (i * 7) + 2 ^ (i * 7) := by omega
        _ = (v % 128 + 1) * 2 ^ (i * 7) := by ring
        _ ≤ 128 * 2 ^ (i * 7) := Nat.mul_le_mul_right _ hmod
        _ = 2 ^ ((i + 1) * 7) := hpow.symm
    have hless : v / 128 < 128 ^ (fuel + 1) := by
      rw [Nat.div_lt_iff_lt_mul (by decide), ← Nat.pow_succ]
      exact hfuel
    have hand : (v % 128 + 128) % 128 = v % 128 := by omega
    rw [varintBytes_more hhigh, cons_append, readVarintFrom, toNat_high, and_payload, hand, or_shiftLeft hn]
    rw [if_neg (and_continue_high v), ih _ _ _ hdigit hless (by rw [hsplit]; exact hsafe), hsplit]

theorem readVarint_varintBytes (h : v ≤ maxSafeInteger) (rest : Bytes) :
    readVarint (varintBytes v ++ rest) = .ok (v, rest) := by
  have hfuel : v < 128 ^ (9 + 1) := by
    unfold maxSafeInteger at h
    omega
  have hread := readVarintFrom_varintBytes 9 0 0 v rest (by decide) hfuel (by simpa using h)
  simpa [readVarint] using hread

/-! ### Fields -/

/-- What a call of a `Writer` is read back as. -/
def Write.field : Write → Field
  | .varint field n => ⟨field, 0, some n, none⟩
  | .string field value => ⟨field, 2, none, some (encodeUtf8 value)⟩
  | .bytes field value => ⟨field, 2, none, some value⟩
  | .double field _ => ⟨field, 1, none, none⟩

def Write.Admissible : Write → Prop
  | .varint field n => 0 < field ∧ field < 2 ^ 29 ∧ n ≤ maxSafeInteger
  | .string field value => 0 < field ∧ field < 2 ^ 29 ∧ (encodeUtf8 value).length ≤ maxFrame
  | .bytes field value => 0 < field ∧ field < 2 ^ 29 ∧ value.length ≤ maxFrame
  | .double field _ => 0 < field ∧ field < 2 ^ 29

theorem varint_ok {n : Nat} (h : n ≤ maxSafeInteger) : varint n = .ok (varintBytes n) := if_neg (Nat.not_lt.2 h)

variable {field : Nat} {wire : Nat}

theorem key_le (hf : field < 2 ^ 29) (hw : wire < 8) : field * 8 + wire ≤ maxSafeInteger := by
  unfold maxSafeInteger
  omega

theorem fieldNumber_key (hf : field < 2 ^ 29) (hw : wire < 8) :
    fieldNumber (field * 8 + wire) = field := by
  unfold fieldNumber
  omega

theorem wire_key (field : Nat) (hw : wire < 8) : (field * 8 + wire) &&& 7 = wire := by
  have hand : (field * 8 + wire) &&& 7 = (field * 8 + wire) % 8 := Nat.and_two_pow_sub_one_eq_mod _ 3
  omega

theorem parseField_key (h0 : 0 < field) (hf : field < 2 ^ 29) (hw : wire < 8) (rest : Bytes) :
    parseField (varintBytes (field * 8 + wire) ++ rest) =
      (if wire = 0 then do
        let (n, input) ← readVarint rest
        return (⟨field, wire, some n, none⟩, input)
      else if wire = 1 then do
        if 8 > rest.length then throw (js "truncated protobuf fixed64")
        return (⟨field, wire, none, none⟩, rest.drop 8)
      else if wire = 2 then do
        let (len, input) ← readVarint rest
        if len > maxFrame ∨ len > input.length then throw (js "invalid protobuf field length")
        return (⟨field, wire, none, some (input.take len)⟩, input.drop len)
      else if wire = 5 then do
        if 4 > rest.length then throw (js "truncated protobuf fixed32")
        return (⟨field, wire, none, some (rest.take 4)⟩, rest.drop 4)
      else throw (js "unsupported protobuf wire type")) := by
  unfold parseField
  rw [readVarint_varintBytes (key_le hf hw)]
  simp only [bind, Except.bind, fieldNumber_key hf hw, wire_key field hw]
  rw [if_neg (Nat.ne_of_gt h0)]

theorem tag_bytes (hf : field < 2 ^ 29) {value : Bytes} (hlen : value.length ≤ maxFrame) :
    tag field 2 (some value.length) = .ok (varintBytes (field * 8 + 2) ++ varintBytes value.length) := by
  have hsafe : value.length ≤ maxSafeInteger := Nat.le_trans hlen (by decide)
  unfold tag
  rw [varint_ok (key_le hf (by decide))]
  simp only [bind, Except.bind, if_pos, Option.getD_some, varint_ok hsafe]
  rfl

theorem parseField_bytes (h0 : 0 < field) (hf : field < 2 ^ 29) {value : Bytes} (hlen : value.length ≤ maxFrame)
    (rest : Bytes) : parseField (varintBytes (field * 8 + 2) ++ varintBytes value.length ++ value ++ rest) =
    .ok (⟨field, 2, none, some value⟩, rest) := by
  have hsafe : value.length ≤ maxSafeInteger := Nat.le_trans hlen (by decide)
  have hfits : ¬ (value.length > maxFrame ∨ value.length > (value ++ rest).length) := by
    rw [length_append]
    omega
  rw [append_assoc, append_assoc, parseField_key h0 hf (by decide), if_neg (by decide), if_neg (by decide),
    if_pos rfl, readVarint_varintBytes hsafe]
  simp only [bind, Except.bind]
  rw [if_neg hfits, take_left, drop_left]
  rfl

theorem parseField_encode {w : Write} (h : w.Admissible) :
    ∃ bytes, w.encode = .ok bytes ∧ bytes ≠ [] ∧ ∀ rest, parseField (bytes ++ rest) = .ok (w.field, rest) := by
  cases w with
  | varint field n =>
    obtain ⟨h0, hf, hn⟩ := h
    refine ⟨varintBytes (field * 8 + 0) ++ varintBytes n, ?_, ?_, fun rest => ?_⟩
    · have hkey : field * 8 ≤ maxSafeInteger := key_le hf (show 0 < 8 by decide)
      simp only [Write.encode, varint_ok hkey, varint_ok hn, bind, Except.bind]
      rfl
    · simp [varintBytes_ne_nil]
    · rw [append_assoc, parseField_key h0 hf (by decide), if_pos rfl, readVarint_varintBytes hn]
      rfl
  | string field value =>
    obtain ⟨h0, hf, hlen⟩ := h
    refine ⟨varintBytes (field * 8 + 2) ++ varintBytes (encodeUtf8 value).length ++ encodeUtf8 value, ?_, ?_, ?_⟩
    · simp only [Write.encode, tag_bytes hf hlen, bind, Except.bind]
      rfl
    · simp [varintBytes_ne_nil]
    · exact parseField_bytes h0 hf hlen
  | bytes field value =>
    obtain ⟨h0, hf, hlen⟩ := h
    refine ⟨varintBytes (field * 8 + 2) ++ varintBytes value.length ++ value, ?_, ?_, ?_⟩
    · simp only [Write.encode, tag_bytes hf hlen, bind, Except.bind]
      rfl
    · simp [varintBytes_ne_nil]
    · exact parseField_bytes h0 hf hlen
  | double field bits =>
    obtain ⟨h0, hf⟩ := h
    refine ⟨varintBytes (field * 8 + 1) ++ littleEndian bits, ?_, ?_, fun rest => ?_⟩
    · have htag : tag field 1 none = .ok (varintBytes (field * 8 + 1)) := by
        unfold tag
        rw [varint_ok (key_le hf (by decide))]
        rfl
      simp only [Write.encode, htag, bind, Except.bind]
      rfl
    · simp [varintBytes_ne_nil]
    · rw [append_assoc, parseField_key h0 hf (by decide), if_neg (by decide), if_pos rfl]
      rfl

theorem parseFieldsFrom_encode {ws : List Write} (h : ∀ w ∈ ws, w.Admissible) : ∃ bytes, encode ws = .ok bytes ∧
    ∀ fuel, bytes.length ≤ fuel → parseFieldsFrom fuel bytes = .ok (ws.map Write.field) := by
  induction ws with
  | nil =>
    refine ⟨[], rfl, fun fuel _ => ?_⟩
    cases fuel <;> rfl
  | cons w ws ih =>
    obtain ⟨bs, hbs, hrest⟩ := ih fun w' hw' => h w' (mem_cons_of_mem _ hw')
    obtain ⟨b, hb, hne, hfield⟩ := parseField_encode (h w mem_cons_self)
    refine ⟨b ++ bs, ?_, fun fuel hfuel => ?_⟩
    · simp only [encode, hb, hbs, bind, Except.bind]
      rfl
    · obtain ⟨x, xs, rfl⟩ := exists_cons_of_ne_nil hne
      rw [length_append, length_cons] at hfuel
      cases fuel with
      | zero => omega
      | succ fuel =>
        have hround : parseField (x :: (xs ++ bs)) = .ok (w.field, bs) := hfield bs
        have hbelow := hrest fuel (by omega)
        rw [cons_append]
        simp only [parseFieldsFrom, hround, hbelow, bind, Except.bind]
        rfl

/-- A message within the size limit is read back field by field, in order. -/
theorem parseFields_encode {ws : List Write} (h : ∀ w ∈ ws, w.Admissible) :
    ∃ bytes, encode ws = .ok bytes ∧ (bytes.length ≤ maxFrame → parseFields bytes = .ok (ws.map Write.field)) := by
  obtain ⟨bytes, hbytes, hparse⟩ := parseFieldsFrom_encode h
  refine ⟨bytes, hbytes, fun hlen => ?_⟩
  unfold parseFields
  rw [if_neg (Nat.not_lt.2 hlen)]
  exact hparse _ (Nat.le_refl _)

end Wrenyard.Devin
