import JackCompiler.Json.Record
import JackCompiler.Proofs.Json.Strings
/-!
# Lists and records in JSON are read back

A record is read field by field: each field that has been written is put into the draft, and behind
the last one the draft has all of them. A list is read item by item. Every round takes at least one
character, so the text is a bound for their number.
-/

namespace JackCompiler.Json

namespace Reading

variable {blanks rest : List Char} {c : Char}

/-- The comma in front of a field or an item that is not the first. -/
def separator (first : Bool) : List Char := if first then [] else [',']

/-! ### Records -/

section Records

/-- A field as it is written. -/
def fieldText (gap : List Char) (name : String) (value : List Char) : List Char :=
  gap ++ ((string name).toList ++ ':' :: ' ' :: value)

/-- `Fills fields gap d written d'`: the fields that have been written take the draft `d` to `d'`.
A comma stands behind each but the last. -/
inductive Fills {δ : Type} (fields : List (FieldReading δ)) (gap : List Char) :
    δ → List Char → δ → Prop
  | last {field name value d d'} (found : fields.find? (·.name = name) = some field)
      (fresh : field.isGiven d = false)
      (read : ∀ rest, field.read d (' ' :: (value ++ '\n' :: rest)) = .ok (d', '\n' :: rest)) :
      Fills fields gap d (fieldText gap name value) d'
  | more {field name value written d d' d''} (found : fields.find? (·.name = name) = some field)
      (fresh : field.isGiven d = false)
      (read : ∀ rest, field.read d (' ' :: (value ++ ',' :: rest)) = .ok (d', ',' :: rest))
      (others : Fills fields gap d' written d'') :
      Fills fields gap d (fieldText gap name value ++ ',' :: written) d''

variable {δ α : Type} {fields : List (FieldReading δ)} {field : FieldReading δ}
  {name : String} {gap value written closing : List Char} {first : Bool} {d d' : δ}

/-- The name of a field that has been written. -/
theorem name?_written (blank : gap.all isBlank = true) :
    name? first (separator first ++ (gap ++ ((string name).toList ++ rest))) =
      .ok (some name, rest) := by
  have quote := front_string gap blank name rest
  have again : front ((string name).toList ++ rest) = .ok ('"', (string name).toList ++ rest) :=
    front_string [] rfl name rest
  have text := quotation_string name rest
  cases first with
  | true =>
    rw [separator, if_pos rfl, List.nil_append, name?, bind_eq quote, if_neg (by decide)]
    change (front >>= fun c => _) _ = _
    rw [bind_eq again, if_pos rfl, bind_eq text, pure_eq]
  | false =>
    rw [separator, if_neg (by decide), List.singleton_append, name?,
      bind_eq (front_solid (by decide)), if_neg (by decide)]
    change (expect ',' >>= fun _ => front >>= fun c => _) _ = _
    rw [bind_eq (expect_self (by decide)), bind_eq quote, if_pos rfl, bind_eq text, pure_eq]

theorem name?_closing (blank : blanks.all isBlank = true) :
    name? first (blanks ++ '\x7d' :: rest) = .ok (none, '\x7d' :: rest) := by
  rw [name?, bind_eq (front_eq blanks blank (by decide)), if_pos rfl, pure_eq]

/-- One round takes one field into the draft. -/
theorem namedFields_round {b : Char} {bound : List Char} (blank : gap.all isBlank = true)
    (found : fields.find? (·.name = name) = some field) (fresh : field.isGiven d = false)
    (read : field.read d (' ' :: (value ++ rest)) = .ok (d', rest)) :
    namedFields fields (b :: bound) first d
        (separator first ++ (fieldText gap name value ++ rest)) =
      namedFields fields bound false d' rest := by
  have spelled : separator first ++ (fieldText gap name value ++ rest) =
      separator first ++ (gap ++ ((string name).toList ++ (':' :: ' ' :: (value ++ rest)))) := by
    simp [fieldText]
  rw [spelled, namedFields, bind_eq (name?_written blank)]
  simp only [found, fresh, Bool.false_eq_true, if_false]
  rw [bind_eq (expect_self (by decide)), bind_eq read]

/-- Behind the last field the draft is full. -/
theorem namedFields_fills (blank : gap.all isBlank = true)
    (closed : closing.all isBlank = true) (fills : Fills fields gap d written d')
    {bound : List Char} (long : written.length < bound.length) (first : Bool) :
    namedFields fields bound first d
      (separator first ++ (written ++ '\n' :: (closing ++ '\x7d' :: rest))) =
      .ok (d', '\x7d' :: rest) := by
  have closed : ('\n' :: closing).all isBlank = true := closed
  induction fills generalizing bound first with
  | @last field name value d d' found fresh read =>
    have two : 1 < bound.length := by
      refine Nat.lt_of_le_of_lt ?_ long
      simp [fieldText]
      omega
    obtain _ | ⟨b, _ | ⟨b', bound⟩⟩ := bound
    · cases two
    · exact absurd two (Nat.lt_irrefl 1)
    · rw [namedFields_round blank found fresh (read _), ← List.cons_append, namedFields,
        bind_eq (name?_closing closed)]
      rfl
  | @more field name value written d d' d'' found fresh read others ih =>
    obtain _ | ⟨b, bound⟩ := bound
    · cases long
    · rw [List.append_assoc, List.cons_append, namedFields_round blank found fresh (read _)]
      refine ih ?_ false
      simp only [List.length_append, List.length_cons] at long
      omega

/-- **A record whose fields have been written is read back.** -/
theorem record_fills {blank : δ} {finish : δ → Option α} {a : α}
    (between : gap.all isBlank = true) (closed : closing.all isBlank = true)
    (fills : Fills fields gap blank written d) (complete : finish d = some a) :
    record fields blank finish ('\x7b' :: (written ++ '\n' :: (closing ++ '\x7d' :: rest))) =
      .ok (a, rest) := by
  have long : written.length < (written ++ '\n' :: (closing ++ '\x7d' :: rest)).length := by
    simp
  have filled : namedFields fields (written ++ '\n' :: (closing ++ '\x7d' :: rest)) true blank
      (written ++ '\n' :: (closing ++ '\x7d' :: rest)) = .ok (d, '\x7d' :: rest) :=
    namedFields_fills between closed fills long true
  rw [record, bind_eq (front_solid (by decide)), if_neg (by decide), if_pos rfl,
    bind_eq (expect_self (by decide)), bind_eq (get_eq _), bind_eq filled]
  simp only [complete]
  rw [bind_eq (expect_self (by decide)), pure_eq]

end Records

/-! ### Lists -/

section Lists

variable {α : Type} {item : Reading α} {write : α → List Char} {gap closing : List Char}
  {first : Bool}

/-- An item that has been written is read back. It begins with neither a blank nor the bracket that
closes a list. -/
structure ReadsBack (item : Reading α) (write : α → List Char) : Prop where
  solid : ∀ a, ∃ c more, write a = c :: more ∧ isBlank c = false ∧ c ≠ ']'
  read : ∀ a rest, item (write a ++ rest) = .ok (a, rest)

/-- Items as they are written behind others. -/
def itemsText (write : α → List Char) (gap : List Char) (items : List α) : List Char :=
  items.flatMap fun a => ',' :: (gap ++ write a)

theorem hasItem_written (blank : blanks.all isBlank = true) (solid : isBlank c = false)
    (other : c ≠ ']') :
    hasItem first (separator first ++ (blanks ++ c :: rest)) = .ok (true, c :: rest) := by
  have found : front (blanks ++ c :: rest) = .ok (c, c :: rest) := front_eq blanks blank solid
  cases first with
  | true =>
    rw [separator, if_pos rfl, List.nil_append, hasItem, bind_eq found, if_neg other, if_pos rfl,
      pure_eq]
  | false =>
    rw [separator, if_neg (by decide), List.singleton_append, hasItem,
      bind_eq (front_solid (by decide)), if_neg (by decide), if_neg (by decide),
      bind_eq (expect_self (by decide)), bind_eq found, if_neg other, pure_eq]

theorem hasItem_closing (blanks : List Char) (blank : blanks.all isBlank = true) :
    hasItem first (blanks ++ ']' :: rest) = .ok (false, ']' :: rest) := by
  rw [hasItem, bind_eq (front_eq blanks blank (by decide)), if_pos rfl, pure_eq]

/-- One round takes one item. -/
theorem itemsWithin_round (h : ReadsBack item write) (blank : gap.all isBlank = true)
    (first : Bool) (a : α) (done : List α) (b : Char) (bound rest : List Char) :
    itemsWithin item (b :: bound) first done (separator first ++ (gap ++ (write a ++ rest))) =
      itemsWithin item bound false (a :: done) rest := by
  obtain ⟨c, more, spelled, notBlank, notClosing⟩ := h.solid a
  have taken := h.read a rest
  rw [spelled, List.cons_append] at taken ⊢
  rw [itemsWithin, bind_eq (hasItem_written blank notBlank notClosing), if_pos rfl, bind_eq taken]

/-- Items that have been written behind others. -/
theorem itemsWithin_more (h : ReadsBack item write) (blank : gap.all isBlank = true)
    (closed : closing.all isBlank = true) (items done : List α) {bound : List Char}
    (long : items.length < bound.length) :
    itemsWithin item bound false done (itemsText write gap items ++ (closing ++ ']' :: rest)) =
      .ok (items.reverse ++ done, ']' :: rest) := by
  induction items generalizing done bound with
  | nil =>
    obtain _ | ⟨b, bound⟩ := bound
    · cases long
    · rw [itemsText, List.flatMap_nil, List.nil_append, itemsWithin,
        bind_eq (hasItem_closing closing closed)]
      rfl
  | cons a items ih =>
    obtain _ | ⟨b, bound⟩ := bound
    · cases long
    · have spelled : itemsText write gap (a :: items) ++ (closing ++ ']' :: rest) =
          separator false ++ (gap ++ (write a ++
            (itemsText write gap items ++ (closing ++ ']' :: rest)))) := by
        simp [itemsText, separator]
      rw [spelled, itemsWithin_round h blank, ih _ (Nat.lt_of_succ_lt_succ long),
        List.reverse_cons, List.append_assoc, List.singleton_append]

theorem length_le_itemsText (items : List α) :
    items.length ≤ (itemsText write gap items).length := by
  induction items with
  | nil => exact Nat.le_refl _
  | cons a items ih =>
    simp only [itemsText, List.flatMap_cons, List.length_append, List.length_cons] at ih ⊢
    omega

/-- A list is what stands between its brackets. -/
theorem list_of_itemsWithin {text : List Char} {items : List α}
    (within : itemsWithin item text true [] text = .ok (items, ']' :: rest)) :
    list item (' ' :: '[' :: text) = .ok (items.reverse, rest) := by
  have opened : front (' ' :: '[' :: text) = .ok ('[', '[' :: text) := front_eq [' '] rfl rfl
  rw [list, bind_eq opened, if_pos rfl, bind_eq (expect_self (by decide)), bind_eq (get_eq _),
    bind_eq within, bind_eq (expect_self (by decide)), pure_eq]

theorem list_empty : list item (' ' :: '[' :: ']' :: rest) = .ok ([], rest) := by
  have closed : hasItem true (']' :: rest) = .ok (false, ']' :: rest) := hasItem_closing [] rfl
  have within : itemsWithin item (']' :: rest) true [] (']' :: rest) = .ok ([], ']' :: rest) := by
    rw [itemsWithin, bind_eq closed]
    rfl
  exact list_of_itemsWithin within

/-- **A list that has been written is read back.** -/
theorem list_items (h : ReadsBack item write) (blank : gap.all isBlank = true)
    (closed : closing.all isBlank = true) (a : α) (items : List α) :
    list item (' ' :: '[' ::
      (gap ++ (write a ++ (itemsText write gap items ++ (closing ++ ']' :: rest))))) =
      .ok (a :: items, rest) := by
  generalize whole : gap ++ (write a ++ (itemsText write gap items ++ (closing ++ ']' :: rest))) =
    text
  have long : items.length + 1 < text.length := by
    obtain ⟨c, more, spelled, -⟩ := h.solid a
    have some : items.length ≤ (itemsText write gap items).length := length_le_itemsText items
    simp only [← whole, spelled, List.length_append, List.length_cons]
    omega
  have within : itemsWithin item text true [] text = .ok (items.reverse ++ [a], ']' :: rest) := by
    obtain _ | ⟨b, bound⟩ := text
    · cases long
    · calc itemsWithin item (b :: bound) true [] (b :: bound)
          = itemsWithin item bound false [a]
              (itemsText write gap items ++ (closing ++ ']' :: rest)) := by
            have round := itemsWithin_round h blank true a [] b bound
              (itemsText write gap items ++ (closing ++ ']' :: rest))
            rwa [separator, if_pos rfl, List.nil_append, whole] at round
        _ = .ok (items.reverse ++ [a], ']' :: rest) :=
            itemsWithin_more h blank closed items [a] (Nat.lt_of_succ_lt_succ long)
  rw [list_of_itemsWithin within, List.reverse_append, List.reverse_reverse,
    List.reverse_singleton, List.singleton_append]

end Lists

end Reading

end JackCompiler.Json
