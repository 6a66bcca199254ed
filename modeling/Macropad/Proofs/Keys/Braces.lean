import Mathlib
import Macropad.Keys.Injection
import Macropad.Proofs.Keys.Concatenation

/-!
# Characters in braces

Every character can be typed by putting it into braces, also the braces themselves, and every
character but one can be repeated there, as often as a count of 32 bits says
(`parseKeys_inBraces`). The exception is the closing brace. It is recognised in front of another
one only; in front of a count it ends its braces, which are then empty, and no key has an empty
name (`parseKeys_of_empty`).
-/

set_option autoImplicit false

namespace Macropad.Keys

open Grammar Reader

/-- An atom alone is read as its stroke, if the stroke types anything. -/
theorem Grammar.Atom.parseKeys_eq_ok {s : List Char} {stroke : KeyStroke} (hatom : Atom s stroke) :
    parseKeys s = .ok (KeyStroke.prepend stroke []) := by
  have hsequence := Sequence.atom hatom .nil
  rw [List.append_nil] at hsequence
  exact parseKeys_eq_ok_iff.2 ⟨_, hsequence, by rw [merge_eq_foldr]; rfl⟩

theorem prepend_replicate (n : Nat) (c : Char) :
    KeyStroke.prepend (.text (List.replicate n c)) [] =
      if n = 0 then [] else [.text (List.replicate n c)] := by
  cases n with
  | zero => rfl
  | succ n => rfl

/-! ### Characters and their counts -/

theorem not_mem_toDigits {c : Char} (hc : c.isDigit = false) (n : Nat) :
    c ∉ Nat.toDigits 10 n := by
  intro hmem
  cases hc.symm.trans (Nat.isDigit_of_mem_toDigits (by decide) (by decide) hmem)

/-- A character in braces. -/
theorem atom_char (c : Char) : Atom (inBraces [c]) (.text [c]) := by
  by_cases hc : c = '}'
  · subst hc
    exact .closingBrace
  · exact .braced (mt List.mem_singleton.1 (Ne.symm hc)) (Body.once (.char c))

/-- A character with its count in braces. -/
theorem atom_repeated {c : Char} (hc : c ≠ '}') (n : UInt32) :
    Atom (inBraces (c :: ' ' :: Nat.toDigits 10 n.toNat)) (.text (List.replicate n.toNat c)) := by
  have hbrace : '}' ∉ c :: ' ' :: Nat.toDigits 10 n.toNat := by
    simp only [List.mem_cons, not_or]
    exact ⟨Ne.symm hc, by decide, not_mem_toDigits (by decide) n.toNat⟩
  exact .braced hbrace (Body.counted (.char c) (Number.readWord32_toDigits n))

/-! ### Empty braces -/

theorem atom_of_empty {s : List Char} (hs : s.head? ≠ some '}') :
    atom '{' ('}' :: s) = .error (.unknownKey []) := by
  have hclosing : ∀ rest, '}' :: s = '}' :: '}' :: rest → False := by
    rintro rest hlists
    exact hs (congrArg List.head? (List.cons.inj hlists).2)
  rw [atom_brace, braced.eq_2 _ hclosing]
  rfl

/-- Empty braces name no key, unless one more brace makes a character of the closing one. -/
theorem parseKeys_of_empty {s : List Char} (hs : s.head? ≠ some '}') :
    parseKeys ('{' :: '}' :: s) = .error (.unknownKey []) :=
  parseKeys_eq_error_iff.2 ⟨.unknownKey [], (sequence_atom_eq_error_iff [] (by decide) (by decide)
    (by decide)).2 (.inl (atom_of_empty hs)), rfl⟩

/-! ### Typing characters -/

/-- A character in braces is typed as it is, and with a count behind a blank it is typed as often,
or not at all if the count is zero. Only the closing brace cannot be repeated. -/
theorem parseKeys_inBraces (c : Char) :
    parseKeys (inBraces [c]) = .ok [.text [c]] ∧
      ∀ n : UInt32, parseKeys (inBraces (c :: ' ' :: Nat.toDigits 10 n.toNat)) =
        if c = '}' then .error (.unknownKey [])
        else .ok (if n = 0 then [] else [.text (List.replicate n.toNat c)]) := by
  refine ⟨(atom_char c).parseKeys_eq_ok, fun n ↦ ?_⟩
  by_cases hc : c = '}'
  · subst hc
    have hblank : (' ' :: Nat.toDigits 10 n.toNat ++ ['}']).head? ≠ some '}' := by simp
    rw [if_pos rfl]
    exact parseKeys_of_empty hblank
  · have hzero : n.toNat = 0 ↔ n = 0 := UInt32.toNat_inj (b := 0)
    rw [if_neg hc, (atom_repeated hc n).parseKeys_eq_ok, prepend_replicate]
    simp only [hzero]

/-- A closing brace with the count three is no key text. -/
theorem closingBrace_not_repeated :
    parseKeys "\x7b\x7d 3\x7d".toList = .error (.unknownKey []) ∧
      parseKeys "\x7b\x7d 3\x7d".toList ≠ .ok [.text "\x7d\x7d\x7d".toList] := by
  have hparse : parseKeys "\x7b\x7d 3\x7d".toList = .error (.unknownKey []) := by
    cbv
  refine ⟨hparse, ?_⟩
  rw [hparse]
  rintro ⟨⟩

end Macropad.Keys
