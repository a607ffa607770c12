import AstraeaGateway.Hex
import Mathlib.Data.List.Basic

/-!
# `Percent` — percent-encoded bytes

`Encoded s t` says that `t` is `s` with every byte percent-encoded except for the unreserved characters,
whatever the case of the hexadecimal digits. `Encoded.decode` is the way back, so encoding loses nothing;
`Encoded.not_mem` says that no reserved character but the percent sign occurs in an encoded text.
-/

namespace Percent

/-- A letter, a digit, `-`, `.`, `_` or `~`. -/
def isUnreserved (b : UInt8) : Bool :=
  (97 ≤ b && b ≤ 122) || (65 ≤ b && b ≤ 90) || (48 ≤ b && b ≤ 57) || b == 45 || b == 46 || b == 95 || b == 126

/-- `%` -/
def sign : UInt8 := 37

inductive Encoded : List UInt8 → List UInt8 → Prop
  | nil : Encoded [] []
  | unreserved {b : UInt8} {s t : List UInt8} (hb : isUnreserved b = true) (h : Encoded s t) :
      Encoded (b :: s) (b :: t)
  | escaped {b hi lo : UInt8} {s t : List UInt8} (hb : isUnreserved b = false)
      (hhi : Hex.value hi = some (b.toNat / 16)) (hlo : Hex.value lo = some (b.toNat % 16))
      (h : Encoded s t) : Encoded (b :: s) (sign :: hi :: lo :: t)

/-- Percent-decoding; `none` where a percent sign is not followed by two hexadecimal digits. -/
def decode : List UInt8 → Option (List UInt8)
  | []     => some []
  | b :: t =>
      if b = sign then
        match t with
        | hi :: lo :: t => do
            let n ← Hex.value hi
            let m ← Hex.value lo
            return UInt8.ofNat (16 * n + m) :: (← decode t)
        | _ => none
      else (decode t).map (b :: ·)

variable {b : UInt8} {s t : List UInt8}

theorem ne_sign_of_isUnreserved (h : isUnreserved b = true) : b ≠ sign := by
  rintro rfl
  cases h

theorem decode_cons_of_ne (h : b ≠ sign) (t : List UInt8) : decode (b :: t) = (decode t).map (b :: ·) := by
  rw [decode.eq_def]
  exact if_neg h

/-- **Decoding undoes encoding.** -/
theorem Encoded.decode (h : Encoded s t) : decode t = some s := by
  induction h with
  | nil => rfl
  | unreserved hb _ ih => rw [decode_cons_of_ne (ne_sign_of_isUnreserved hb), ih, Option.map_some]
  | @escaped b hi lo s t hb hhi hlo _ ih =>
      have hbyte : UInt8.ofNat (16 * (b.toNat / 16) + b.toNat % 16) = b := by
        rw [Nat.div_add_mod]
        exact UInt8.ofNat_toNat
      simp only [Percent.decode, if_true, hhi, hlo, ih, Option.bind_eq_bind, Option.bind_some, Option.pure_def,
        hbyte]

/-- A hexadecimal digit is a digit or a letter. -/
theorem isUnreserved_of_hex {n : Nat} (h : Hex.value b = some n) : isUnreserved b = true := by
  unfold isUnreserved
  rcases Hex.range_of_value h with hdigit | hupper | hlower
  · simp [hdigit.1, hdigit.2]
  · simp [hupper.1, UInt8.le_trans hupper.2 (by decide : (70 : UInt8) ≤ 90)]
  · simp [hlower.1, UInt8.le_trans hlower.2 (by decide : (102 : UInt8) ≤ 122)]

/-- An encoded text is made of unreserved characters and percent signs. -/
theorem Encoded.mem (h : Encoded s t) (hb : b ∈ t) : isUnreserved b = true ∨ b = sign := by
  induction h with
  | nil => cases hb
  | unreserved hx _ ih =>
      rcases List.mem_cons.mp hb with rfl | hb
      · exact Or.inl hx
      · exact ih hb
  | escaped _ hhi hlo _ ih =>
      rcases List.mem_cons.mp hb with rfl | hb
      · exact Or.inr rfl
      · rcases List.mem_cons.mp hb with rfl | hb
        · exact Or.inl (isUnreserved_of_hex hhi)
        · rcases List.mem_cons.mp hb with rfl | hb
          · exact Or.inl (isUnreserved_of_hex hlo)
          · exact ih hb

/-- So any other byte can be a separator. -/
theorem Encoded.not_mem (h : Encoded s t) (hreserved : isUnreserved b = false) (hsign : b ≠ sign) :
    b ∉ t := by
  intro hb
  rcases h.mem hb with hunreserved | hb
  · rw [hreserved] at hunreserved
    cases hunreserved
  · exact hsign hb

/-! ## An encoder -/

def encode (s : List UInt8) : List UInt8 :=
  s.flatMap (fun b => if isUnreserved b then [b]
    else [sign, Hex.upper (b.toNat / 16), Hex.upper (b.toNat % 16)])

theorem encode_encoded (s : List UInt8) : Encoded s (encode s) := by
  induction s with
  | nil => exact Encoded.nil
  | cons b s ih =>
      unfold encode
      rw [List.flatMap_cons]
      cases hb : isUnreserved b with
      | true => exact Encoded.unreserved hb ih
      | false =>
          have hlt : b.toNat < 256 := b.toNat_lt
          exact Encoded.escaped hb (Hex.value_upper _ (by omega)) (Hex.value_upper _ (by omega)) ih

end Percent
