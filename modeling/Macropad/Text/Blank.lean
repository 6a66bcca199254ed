/-!
Blank characters, those of the Unicode property White_Space, and the text that
remains when the blanks at both ends are taken off.
-/

set_option autoImplicit false

namespace Macropad.Text

def isBlank (c : Char) : Bool :=
  let n := c.toNat
  (0x9 ≤ n && n ≤ 0xD) || n == 0x20 || n == 0x85 || n == 0xA0 || n == 0x1680 ||
    (0x2000 ≤ n && n ≤ 0x200A) || n == 0x2028 || n == 0x2029 || n == 0x202F ||
    n == 0x205F || n == 0x3000

def trimLeft (s : List Char) : List Char := s.dropWhile isBlank

def trimRight (s : List Char) : List Char := (s.reverse.dropWhile isBlank).reverse

def trim (s : List Char) : List Char := trimRight (trimLeft s)

def allBlank (s : List Char) : Bool := s.all isBlank

theorem dropWhile_isBlank_eq_nil_iff {s : List Char} :
    s.dropWhile isBlank = [] ↔ allBlank s = true := by
  induction s with
  | nil => simp [allBlank]
  | cons c r ih => by_cases h : isBlank c = true <;> simp_all [allBlank]

theorem isBlank_head_trimLeft {s r : List Char} {c : Char} (h : trimLeft s = c :: r) :
    isBlank c = false := by
  induction s with
  | nil => simp [trimLeft] at h
  | cons d t ih =>
    by_cases hd : isBlank d = true
    · exact ih (by simpa [trimLeft, hd] using h)
    · simp_all [trimLeft]

theorem isBlank_of_isDigit {c : Char} (h : c.isDigit = true) : isBlank c = false := by
  simp only [Char.isDigit, Bool.and_eq_true, decide_eq_true_eq] at h
  have h1 : 48 ≤ c.toNat := h.1
  have h2 : c.toNat ≤ 57 := h.2
  simp [isBlank]
  omega

/-- A text without blanks is trimmed already. -/
theorem trim_of_not_blank {s : List Char} (hs : ∀ c ∈ s, isBlank c = false) : trim s = s := by
  have hkept : ∀ s : List Char, (∀ c ∈ s, isBlank c = false) → s.dropWhile isBlank = s := by
    intro s hs
    cases s with
    | nil => rfl
    | cons c rest => exact List.dropWhile_cons_of_neg (by simp [hs c List.mem_cons_self])
  have hreverse : ∀ c ∈ s.reverse, isBlank c = false := fun c hc ↦ hs c (List.mem_reverse.1 hc)
  rw [trim, trimRight, trimLeft, hkept s hs, hkept s.reverse hreverse, List.reverse_reverse]

theorem trim_eq_nil_iff {s : List Char} : trim s = [] ↔ allBlank s = true := by
  constructor
  · intro h
    have hl : allBlank (trimLeft s) = true := by
      have := (dropWhile_isBlank_eq_nil_iff (s := (trimLeft s).reverse)).1
        (by simpa [trim, trimRight] using h)
      simpa [allBlank] using this
    cases ht : trimLeft s with
    | nil => exact dropWhile_isBlank_eq_nil_iff.1 ht
    | cons c r => simp_all [allBlank, isBlank_head_trimLeft ht]
  · intro h
    have : trimLeft s = [] := dropWhile_isBlank_eq_nil_iff.2 h
    simp [trim, trimRight, this]

end Macropad.Text
