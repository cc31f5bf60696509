/-!
# Blank characters

The characters with the `White_Space` property of Unicode, and the text that is left when those at
both ends are removed.
-/

namespace WalletApi.Text

/-- The characters with the `White_Space` property: the ASCII blanks from tab to carriage return and
the space, the next-line control, and the spaces and separators of the other blocks. Neither the
zero-width space nor the byte order mark is among them. -/
def isBlank (c : Char) : Bool :=
  let n := c.toNat
  (0x9 ≤ n && n ≤ 0xd) || n == 0x20 || n == 0x85 || n == 0xa0 || n == 0x1680
    || (0x2000 ≤ n && n ≤ 0x200a) || n == 0x2028 || n == 0x2029 || n == 0x202f || n == 0x205f
    || n == 0x3000

/-- A text without the blanks in front. -/
def trimStart (cs : List Char) : List Char := cs.dropWhile isBlank

/-- A text without the blanks at its end. -/
def trimEnd (cs : List Char) : List Char := (cs.reverse.dropWhile isBlank).reverse

/-- A text without the blanks at both ends. -/
def trim (cs : List Char) : List Char := trimEnd (trimStart cs)

/-- Nothing is trimmed off a text without blanks. -/
theorem trim_of_forall {cs : List Char} (h : ∀ c ∈ cs, isBlank c = false) : trim cs = cs := by
  have hkeep : ∀ cs : List Char, (∀ c ∈ cs, isBlank c = false) → cs.dropWhile isBlank = cs := by
    intro cs h
    cases cs with
    | nil => rfl
    | cons c cs =>
      have hc := h c List.mem_cons_self
      exact List.dropWhile_cons_of_neg (by rw [hc]; exact Bool.false_ne_true)
  have hend := hkeep cs.reverse fun c hc => h c (List.mem_reverse.mp hc)
  rw [trim, trimStart, hkeep cs h, trimEnd, hend, List.reverse_reverse]

end WalletApi.Text
