import WalletApi.Text.Utf8

/-!
# Base64 text

Three bytes are written as four digits of six bits each, and a last group of one or two bytes is
filled up with `=`. There is one writing of each byte string: `Base64.decode?` refuses missing
filling and last digits with bits that no byte uses. Main statement: `Base64.decode?_encode`.
-/

namespace WalletApi.Base64

/-- The digit of a number below sixty-four. -/
def digit (n : Nat) : Char :=
  if n < 26 then Char.ofNat (65 + n)
  else if n < 52 then Char.ofNat (71 + n)
  else if n < 62 then Char.ofNat (n - 4)
  else if n = 62 then '+'
  else '/'

/-- The number of a digit. -/
def value? (c : Char) : Option Nat :=
  if 'A' ≤ c ∧ c ≤ 'Z' then some (c.toNat - 65)
  else if 'a' ≤ c ∧ c ≤ 'z' then some (c.toNat - 71)
  else if '0' ≤ c ∧ c ≤ '9' then some (c.toNat + 4)
  else if c = '+' then some 62
  else if c = '/' then some 63
  else none

/-- The writing of a byte string. -/
def encode : Bytes → List Char
  | [] => []
  | [a] => [digit (a.toNat / 4), digit (a.toNat % 4 * 16), '=', '=']
  | [a, b] =>
    [digit (a.toNat / 4), digit (a.toNat % 4 * 16 + b.toNat / 16), digit (b.toNat % 16 * 4), '=']
  | a :: b :: c :: rest =>
    digit (a.toNat / 4) :: digit (a.toNat % 4 * 16 + b.toNat / 16)
      :: digit (b.toNat % 16 * 4 + c.toNat / 64) :: digit (c.toNat % 64) :: encode rest

/-- The byte string that a text writes. -/
def decode? : List Char → Option Bytes
  | [] => some []
  | [w, x, '=', '='] => do
    let i ← value? w
    let j ← value? x
    if j % 16 = 0 then some [UInt8.ofNat (i * 4 + j / 16)] else none
  | [w, x, y, '='] => do
    let i ← value? w
    let j ← value? x
    let k ← value? y
    if k % 4 = 0 then some [UInt8.ofNat (i * 4 + j / 16), UInt8.ofNat (j % 16 * 16 + k / 4)]
    else none
  | w :: x :: y :: z :: rest => do
    let i ← value? w
    let j ← value? x
    let k ← value? y
    let l ← value? z
    let bytes ← decode? rest
    some (UInt8.ofNat (i * 4 + j / 16) :: UInt8.ofNat (j % 16 * 16 + k / 4)
      :: UInt8.ofNat (k % 4 * 64 + l) :: bytes)
  | _ => none

theorem value?_digit : ∀ n : Fin 64, value? (digit n.val) = some n.val := by decide +kernel

theorem digit_ne_fill : ∀ n : Fin 64, digit n.val ≠ '=' := by decide +kernel

theorem ofNat_eq {n : Nat} {b : UInt8} (h : n = b.toNat) : UInt8.ofNat n = b := by simp [h]

theorem decode?_encode (bs : Bytes) : decode? (encode bs) = some bs := by
  fun_induction encode bs with
  | case1 => rfl
  | case2 a =>
    have ha := a.toNat_lt
    have h₁ := value?_digit ⟨a.toNat / 4, by omega⟩
    have h₂ := value?_digit ⟨a.toNat % 4 * 16, by omega⟩
    have hr : a.toNat % 4 * 16 % 16 = 0 := by omega
    simp only at h₁ h₂
    simp [decode?, h₁, h₂, hr, -UInt8.ofNat_add, -UInt8.ofNat_mul]
    exact ofNat_eq (by omega)
  | case3 a b =>
    have ha := a.toNat_lt
    have hb := b.toNat_lt
    have h₁ := value?_digit ⟨a.toNat / 4, by omega⟩
    have h₂ := value?_digit ⟨a.toNat % 4 * 16 + b.toNat / 16, by omega⟩
    have h₃ := value?_digit ⟨b.toNat % 16 * 4, by omega⟩
    have hne := digit_ne_fill ⟨b.toNat % 16 * 4, by omega⟩
    have hr : b.toNat % 16 * 4 % 4 = 0 := by omega
    simp only at h₁ h₂ h₃ hne
    simp [decode?, h₁, h₂, h₃, hr, -UInt8.ofNat_add, -UInt8.ofNat_mul]
    exact ⟨ofNat_eq (by omega), ofNat_eq (by omega)⟩
  | case4 a b c rest ih =>
    have ha := a.toNat_lt
    have hb := b.toNat_lt
    have hc := c.toNat_lt
    have h₁ := value?_digit ⟨a.toNat / 4, by omega⟩
    have h₂ := value?_digit ⟨a.toNat % 4 * 16 + b.toNat / 16, by omega⟩
    have h₃ := value?_digit ⟨b.toNat % 16 * 4 + c.toNat / 64, by omega⟩
    have h₄ := value?_digit ⟨c.toNat % 64, by omega⟩
    have hne := digit_ne_fill ⟨c.toNat % 64, by omega⟩
    simp only at h₁ h₂ h₃ h₄ hne
    simp [decode?, h₁, h₂, h₃, h₄, hne, ih, -UInt8.ofNat_add, -UInt8.ofNat_mul]
    exact ⟨ofNat_eq (by omega), ofNat_eq (by omega), ofNat_eq (by omega)⟩

end WalletApi.Base64
