import JackCompiler.Json.Quotation
import JackCompiler.Json.Writing
/-!
# Strings in JSON are read back

A string that has been written is read back character by character: an escape is undone by the
states that it leads through, and a character that is not escaped is neither a quote nor a backslash
nor a control character.
-/

namespace JackCompiler.Json

namespace Reading

variable {α β : Type} {x : Reading α} {f : α → Reading β} {text rest : List Char} {a : α} {c : Char}

/-- What follows goes on with the value and what is left. -/
theorem bind_eq (h : x text = .ok (a, rest)) : (x >>= f) text = f a rest := by
  change (x text >>= fun p => f p.1 p.2) = _
  rw [h]
  rfl

theorem pure_eq (a : α) (text : List Char) : (pure a : Reading α) text = .ok (a, text) := rfl

theorem get_eq (text : List Char) : (get : Reading (List Char)) text = .ok (text, text) := rfl

/-- Blanks in front of the next character are dropped. -/
theorem front_eq (blanks : List Char) (blank : blanks.all isBlank = true)
    (solid : isBlank c = false) : front (blanks ++ c :: rest) = .ok (c, c :: rest) := by
  have dropped : (blanks ++ c :: rest).dropWhile isBlank = c :: rest := by
    rw [List.dropWhile_append_of_pos (List.all_eq_true.1 blank),
      List.dropWhile_cons_of_neg (by simp [solid])]
  rw [front, dropped]

theorem front_solid (solid : isBlank c = false) : front (c :: rest) = .ok (c, c :: rest) :=
  front_eq [] rfl solid

theorem expect_self (solid : isBlank c = false) : expect c (c :: rest) = .ok ((), rest) := by
  rw [expect, bind_eq (front_solid solid), if_pos rfl]
  rfl

end Reading

/-! ### Characters -/

theorem hexValue?_hexDigit : ∀ n, n < 16 → hexValue? (hexDigit n) = some n := by decide

variable {c : Char} {state after : Quotation} {done rest : List Char}

/-- A character that only moves the state. -/
theorem run_moves (inside : state ≠ .plain ∨ c ≠ '"')
    (h : state.step true c rest = .ok (after, none)) :
    Quotation.run true state done (c :: rest) = Quotation.run true after done rest := by
  rw [Quotation.run, if_neg (fun both => inside.elim (· both.1) (· both.2)), h]

/-- A character that completes one of the string. -/
theorem run_completes {d : Char} (inside : state ≠ .plain ∨ c ≠ '"')
    (h : state.step true c rest = .ok (after, some d)) :
    Quotation.run true state done (c :: rest) = Quotation.run true after (d :: done) rest := by
  rw [Quotation.run, if_neg (fun both => inside.elim (· both.1) (· both.2)), h]

/-- A character that stands for itself. -/
theorem run_plain (quote : c ≠ '"') (backslash : c ≠ '\\') (printable : 32 ≤ c.toNat) :
    Quotation.run true .plain done (c :: rest) = Quotation.run true .plain (c :: done) rest :=
  run_completes (.inr quote) (by simp [Quotation.step, backslash, Nat.not_lt.2 printable])

/-- A letter behind a backslash. -/
theorem run_escape (letter : Char) (other : letter ≠ 'u') (h : unescape? letter = some c) :
    Quotation.run true .plain done ('\\' :: letter :: rest) =
      Quotation.run true .plain (c :: done) rest := by
  have escaped : Quotation.step true .escape letter rest = .ok (.plain, some c) := by
    simp [Quotation.step, other, h]
  calc
    _ = Quotation.run true .escape done (letter :: rest) := run_moves (.inr (by decide)) rfl
    _ = Quotation.run true .plain (c :: done) rest := run_completes (.inl nofun) escaped

/-- The digits of a control character make no unit of a pair. -/
theorem closeUnit_control {n : Nat} (control : n < 32) :
    closeUnit true none n = .ok (.plain, some (Char.ofNat n)) := by
  have notLow : isLow n = false := by
    simp only [isLow, decide_eq_false_iff_not]
    omega
  have notHigh : isHigh n = false := by
    simp only [isHigh, decide_eq_false_iff_not]
    omega
  simp [closeUnit, notLow, notHigh]

/-- A control character is written with four digits. -/
theorem run_unit (control : c.toNat < 32) :
    Quotation.run true .plain done ('\\' :: 'u' :: '0' :: '0' ::
      hexDigit (c.toNat / 16) :: hexDigit (c.toNat % 16) :: rest) =
      Quotation.run true .plain (c :: done) rest := by
  have high := hexValue?_hexDigit (c.toNat / 16) (by omega)
  have low := hexValue?_hexDigit (c.toNat % 16) (by omega)
  have both : 16 * (c.toNat / 16) + c.toNat % 16 = c.toNat := Nat.div_add_mod ..
  have third : Quotation.step true (.hex none 2 0) (hexDigit (c.toNat / 16))
      (hexDigit (c.toNat % 16) :: rest) = .ok (.hex none 3 (c.toNat / 16), none) := by
    simp [Quotation.step, high]
  have fourth : Quotation.step true (.hex none 3 (c.toNat / 16)) (hexDigit (c.toNat % 16)) rest =
      .ok (.plain, some c) := by
    simp [Quotation.step, low, both, closeUnit_control control]
  calc
    _ = Quotation.run true .escape done ('u' :: _) := run_moves (.inr (by decide)) rfl
    _ = Quotation.run true (.hex none 0 0) done ('0' :: _) := run_moves (.inl (by decide)) rfl
    _ = Quotation.run true (.hex none 1 0) done ('0' :: _) := run_moves (.inl nofun) rfl
    _ = Quotation.run true (.hex none 2 0) done _ := run_moves (.inl nofun) rfl
    _ = Quotation.run true (.hex none 3 (c.toNat / 16)) done _ := run_moves (.inl nofun) third
    _ = Quotation.run true .plain (c :: done) rest := run_completes (.inl nofun) fourth

/-- What has been written for a character is read as this character. -/
theorem run_escaped (c : Char) (done rest : List Char) :
    Quotation.run true .plain done (escape c ++ rest) =
      Quotation.run true .plain (c :: done) rest := by
  unfold escape
  split
  · exact run_escape '"' (by decide) rfl
  · exact run_escape '\\' (by decide) rfl
  · exact run_escape 'n' (by decide) rfl
  · exact run_escape 'r' (by decide) rfl
  · exact run_escape 't' (by decide) rfl
  · next quote backslash _ _ _ =>
    split
    · next eight =>
      exact run_escape 'b' (by decide) (by rw [← Char.ofNat_toNat c, eight]; rfl)
    · split
      · next twelve =>
        exact run_escape 'f' (by decide) (by rw [← Char.ofNat_toNat c, twelve]; rfl)
      · split
        · next control => exact run_unit control
        · next printable => exact run_plain quote backslash (Nat.not_lt.1 printable)

/-- The characters come out last first. -/
theorem run_string (cs done rest : List Char) :
    Quotation.run true .plain done (cs.flatMap escape ++ '"' :: rest) =
      .ok (cs.reverse ++ done, rest) := by
  induction cs generalizing done with
  | nil => rw [List.flatMap_nil, List.nil_append, Quotation.run, if_pos ⟨rfl, rfl⟩]; rfl
  | cons c cs ih =>
    rw [List.flatMap_cons, List.append_assoc, run_escaped, ih, List.reverse_cons,
      List.append_assoc]
    rfl

theorem string_toList (s : String) :
    (string s).toList = '"' :: (s.toList.flatMap escape ++ ['"']) := by
  simp [string]

/-- **A string that has been written is read back.** -/
theorem quotation_string (s : String) (rest : List Char) :
    quotation ((string s).toList ++ rest) = .ok (s, rest) := by
  have spelled : (string s).toList ++ rest = '"' :: (s.toList.flatMap escape ++ '"' :: rest) := by
    simp [string_toList]
  rw [spelled, quotation, Reading.bind_eq rfl]
  change (Quotation.run true .plain [] _ >>= fun p => _) = _
  rw [run_string]
  change Except.ok (String.ofList (s.toList.reverse ++ []).reverse, rest) = _
  rw [List.append_nil, List.reverse_reverse, String.ofList_toList]

/-- Behind blanks a string shows by its quote. -/
theorem front_string (blanks : List Char) (blank : blanks.all isBlank = true) (s : String)
    (rest : List Char) : Reading.front (blanks ++ ((string s).toList ++ rest)) =
      .ok ('"', (string s).toList ++ rest) := by
  rw [string_toList, List.cons_append]
  exact Reading.front_eq blanks blank (by decide)

end JackCompiler.Json
