/-
JSON values are known from their texts.

The first character of a text tells the kind of its value.  Strings, arrays and objects show
where they end; a count, a number or `null` ends in front of a comma or a closing bracket, or at
the end of the text.  So a value can be told from whatever text comes behind it, and two values
with the same text are the same (`text_injective`).  The numbers have to be plain: JSON has one
text for all those that are not finite.
-/
import Formula.Proofs.Json.Chars
import Formula.Proofs.Number.Text

namespace Formula.Json

/-! ### Where texts end -/

/-- The text behind a value: it is empty or goes on as it may inside an array or an object. -/
def EndsValue (rest : List Char) : Prop := ∀ c ∈ rest.head?, c = ',' ∨ c = ']' ∨ c = '\x7d'

/-- A character that may stand in a value that has no brackets and no quotes. -/
def isInner (c : Char) : Bool := c ≠ ',' && c ≠ ']' && c ≠ '\x7d'

/-- Values without brackets and quotes are told from what comes behind them. -/
theorem eq_of_inner {first last s t : List Char} (hfirst : ∀ c ∈ first, isInner c = true)
    (hlast : ∀ c ∈ last, isInner c = true) (hs : EndsValue s) (ht : EndsValue t)
    (h : first ++ s = last ++ t) : first = last ∧ s = t := by
  have hends : ∀ {rest : List Char}, EndsValue rest → ∀ c ∈ rest.head?, isInner c = false := by
    intro rest hrest c hc
    rcases hrest c hc with rfl | rfl | rfl <;> rfl
  obtain ⟨hfirstcut, hs⟩ := cut_run hfirst (hends hs)
  obtain ⟨hlastcut, ht⟩ := cut_run hlast (hends ht)
  rw [h] at hfirstcut hs
  exact ⟨hfirstcut.symm.trans hlastcut, hs.symm.trans ht⟩

theorem isInner_of_isNumeric {c : Char} (h : NumberStyle.isNumeric c = true) :
    isInner c = true := by
  rw [isInner]
  by_contra hnot
  have hcases : c = ',' ∨ c = ']' ∨ c = '\x7d' := by
    simp only [Bool.and_eq_true, decide_eq_true_eq] at hnot
    grind
  rcases hcases with rfl | rfl | rfl <;> cases h

/-! ### Strings -/

/-- The characters that have an escape. -/
def escaped : List Char := '\x22' :: '\\' :: (List.range 32).map Char.ofNat

theorem escape_of_not_mem {c : Char} (h : c ∉ escaped) : escape c = [c] := by
  have hne : ∀ d ∈ escaped, c ≠ d := by
    rintro d hd rfl
    exact h hd
  have hcontrol : ¬c.toNat < 32 := by
    intro hlt
    refine h (List.mem_cons_of_mem _ (List.mem_cons_of_mem _ ?_))
    exact List.mem_map.mpr ⟨c.toNat, List.mem_range.mpr hlt, Char.ofNat_toNat c⟩
  rw [escape, if_neg (hne _ (by decide)), if_neg (hne _ (by decide)), if_neg (hne _ (by decide)),
    if_neg (hne _ (by decide)), if_neg (hne _ (by decide)), if_neg (hne _ (by decide)),
    if_neg (hne _ (by decide)), if_neg (by omega), if_neg hcontrol]

theorem head?_escape_of_mem {c : Char} (h : c ∈ escaped) : (escape c).head? = some '\\' := by
  have hall : escaped.all fun c => (escape c).head? == some '\\' := by decide +kernel
  exact beq_iff_eq.mp (List.all_eq_true.mp hall c h)

/-- No escape begins with another one. -/
theorem eq_of_prefix_escape {c d : Char} (hc : c ∈ escaped) (hd : d ∈ escaped)
    (h : escape c <+: escape d) : c = d := by
  have hall : escaped.all fun c => escaped.all fun d =>
      !(escape c).isPrefixOf (escape d) || c == d := by decide +kernel
  have hpair := List.all_eq_true.mp (List.all_eq_true.mp hall c hc) d hd
  rw [List.isPrefixOf_iff_prefix.mpr h] at hpair
  exact beq_iff_eq.mp hpair

/-- What is written of a character begins with a backslash or is the character. -/
theorem escape_cases (c : Char) :
    (c ∈ escaped ∧ ∃ code, escape c = '\\' :: code) ∨ (c ∉ escaped ∧ escape c = [c]) := by
  by_cases h : c ∈ escaped
  · obtain ⟨code, hcode⟩ := List.head?_eq_some_iff.mp (head?_escape_of_mem h)
    exact .inl ⟨h, code, hcode⟩
  · exact .inr ⟨h, escape_of_not_mem h⟩

/-- Characters are told from what comes behind them. -/
theorem eq_of_escape {c d : Char} {s t : List Char} (h : escape c ++ s = escape d ++ t) :
    c = d ∧ s = t := by
  have hbackslash : '\\' ∈ escaped := by decide
  rcases escape_cases c with ⟨hc, code, hcode⟩ | ⟨hc, hcode⟩
  · rcases escape_cases d with ⟨hd, other, hother⟩ | ⟨hd, hother⟩
    · have heq : c = d := by
        have hprefix : escape d <+: escape c ++ s := h ▸ List.prefix_append _ _
        rcases List.prefix_or_prefix_of_prefix (List.prefix_append (escape c) s) hprefix with
          hcd | hdc
        · exact eq_of_prefix_escape hc hd hcd
        · exact (eq_of_prefix_escape hd hc hdc).symm
      rw [heq] at h
      exact ⟨heq, List.append_cancel_left h⟩
    · rw [hcode, hother] at h
      rw [← (List.cons.inj h).1] at hd
      exact absurd hbackslash hd
  · rcases escape_cases d with ⟨hd, other, hother⟩ | ⟨hd, hother⟩
    · rw [hcode, hother] at h
      rw [(List.cons.inj h).1] at hc
      exact absurd hbackslash hc
    · rw [hcode, hother] at h
      exact List.cons.inj h

/-- No character is written like the end of a string. -/
theorem escape_ne_quote {c : Char} {s t : List Char} : escape c ++ s ≠ '\x22' :: t := by
  intro h
  rcases escape_cases c with ⟨-, code, hcode⟩ | ⟨hc, hcode⟩
  · rw [hcode] at h
    exact absurd (List.cons.inj h).1 (by decide)
  · rw [hcode] at h
    rw [(List.cons.inj h).1] at hc
    exact hc (by decide)

theorem eq_of_escapes {cs ds s t : List Char}
    (h : cs.flatMap escape ++ '\x22' :: s = ds.flatMap escape ++ '\x22' :: t) :
    cs = ds ∧ s = t := by
  induction cs generalizing ds with
  | nil =>
      cases ds with
      | nil => exact ⟨rfl, (List.cons.inj h).2⟩
      | cons d ds =>
          rw [List.flatMap_cons, List.append_assoc] at h
          exact absurd h.symm escape_ne_quote
  | cons c cs ih =>
      cases ds with
      | nil =>
          rw [List.flatMap_cons, List.append_assoc] at h
          exact absurd h escape_ne_quote
      | cons d ds =>
          rw [List.flatMap_cons, List.flatMap_cons, List.append_assoc, List.append_assoc] at h
          obtain ⟨rfl, hrest⟩ := eq_of_escape h
          obtain ⟨rfl, hends⟩ := ih hrest
          exact ⟨rfl, hends⟩

/-- Strings are told from what comes behind them. -/
theorem eq_of_quote {a b : String} {s t : List Char}
    (h : (quote a).toList ++ s = (quote b).toList ++ t) : a = b ∧ s = t := by
  simp only [quote, String.toList_ofList, List.cons_append, List.append_assoc,
    List.nil_append] at h
  obtain ⟨hchars, hrest⟩ := eq_of_escapes (List.cons.inj h).2
  exact ⟨String.toList_inj.mp hchars, hrest⟩

/-! ### Kinds of values -/

/-- The kinds of values that the first character of a text tells apart. -/
inductive Kind where
  | null
  | number
  | string
  | array
  | object
  deriving DecidableEq

/-- The kind of a value. -/
def kind : Json → Kind
  | null => .null
  | count _ | number _ => .number
  | string _ => .string
  | array _ => .array
  | object _ => .object

/-- The kind of the values whose texts begin with a character. -/
def kindOf? (c : Char) : Option Kind :=
  if c = 'n' then some .null
  else if c = '\x22' then some .string
  else if c = '[' then some .array
  else if c = '\x7b' then some .object
  else if c.isDigit then some .number
  else none

theorem kindOf?_digit {c : Char} (h : c.isDigit = true) : kindOf? c = some .number := by
  have hne : ∀ d : Char, d.isDigit = false → c ≠ d := by
    rintro d hd rfl
    rw [h] at hd
    cases hd
  rw [kindOf?, if_neg (hne _ rfl), if_neg (hne _ rfl), if_neg (hne _ rfl), if_neg (hne _ rfl),
    if_pos h]

theorem isNumberText_numberText {x : Binary64} (h : x.IsPlain) :
    NumberStyle.IsNumberText (numberText x).toList := by
  rw [numberText, if_pos h.1, String.toList_ofList]
  exact NumberStyle.isNumberText_write rfl h.2

/-- **The first character of a text tells the kind of its value.** -/
theorem head?_chars {v : Json} (h : v.IsPlain) (rest : List Char) :
    ∃ c, (v.chars ++ rest).head? = some c ∧ kindOf? c = some v.kind := by
  have hdigits : ∀ {whole more : List Char}, whole ≠ [] → Decimal.IsDigits whole →
      ∃ c, (whole ++ more).head? = some c ∧ kindOf? c = some .number := by
    intro whole more hne hwhole
    obtain ⟨c, cs, rfl⟩ := List.exists_cons_of_ne_nil hne
    exact ⟨c, rfl, kindOf?_digit (hwhole c (by simp))⟩
  cases v with
  | null => exact ⟨'n', rfl, rfl⟩
  | count n =>
      rw [chars]
      exact hdigits Nat.toDigits_ne_nil (Decimal.isDigits_toDigits n)
  | number x =>
      rw [chars]
      have hshape := isNumberText_numberText (isPlain_number.mp h)
      generalize (numberText x).toList = text at hshape
      cases hshape with
      | intro hne hwhole _ _ =>
          rw [List.append_assoc]
          exact hdigits hne hwhole
  | string text =>
      rw [chars, quote, String.toList_ofList]
      exact ⟨'\x22', rfl, rfl⟩
  | array items =>
      rw [chars_array]
      exact ⟨'[', rfl, rfl⟩
  | object fields =>
      rw [chars_object]
      exact ⟨'\x7b', rfl, rfl⟩

theorem kind_eq {v w : Json} (hv : v.IsPlain) (hw : w.IsPlain) {s t : List Char}
    (h : v.chars ++ s = w.chars ++ t) : v.kind = w.kind := by
  obtain ⟨c, hc, hkind⟩ := head?_chars hv s
  obtain ⟨d, hd, hother⟩ := head?_chars hw t
  rw [h, hd] at hc
  obtain rfl := Option.some.inj hc
  exact Option.some.inj (hkind.symm.trans hother)

/-- No text of a value begins like the end of an array. -/
theorem chars_ne_closing {v : Json} (h : v.IsPlain) (s t : List Char) :
    v.chars ++ s ≠ ']' :: t := by
  obtain ⟨c, hc, hkind⟩ := head?_chars h s
  intro heq
  rw [heq] at hc
  obtain rfl := Option.some.inj hc
  cases hkind

/-! ### Telling parts of a sequence apart -/

/-- Two parts of a text can be told apart whatever comes behind them. -/
def ToldApart {α : Type} (f : α → List Char) (a b : α) : Prop :=
  ∀ s t, EndsValue s → EndsValue t → f a ++ s = f b ++ t → a = b ∧ s = t

section

variable {α : Type} {f : α → List Char} {ending : Char} {as bs : List α} {s t : List Char}

theorem endsValue_more (hending : ending = ']' ∨ ending = '\x7d') (as : List α) (s : List Char) :
    EndsValue (as.flatMap (fun a => ',' :: f a) ++ ending :: s) := by
  cases as with
  | nil => simpa [EndsValue] using .inr hending
  | cons a as => simp [EndsValue]

theorem eq_of_more (hending : ending = ']' ∨ ending = '\x7d')
    (hparts : ∀ a ∈ as, ∀ b ∈ bs, ToldApart f a b)
    (h : as.flatMap (fun a => ',' :: f a) ++ ending :: s =
      bs.flatMap (fun b => ',' :: f b) ++ ending :: t) : as = bs ∧ s = t := by
  have hcomma : ending ≠ ',' := by rcases hending with rfl | rfl <;> decide
  induction as generalizing bs with
  | nil =>
      cases bs with
      | nil => exact ⟨rfl, (List.cons.inj h).2⟩
      | cons b bs => exact absurd (List.cons.inj h).1 hcomma
  | cons a as ih =>
      cases bs with
      | nil => exact absurd (List.cons.inj h).1.symm hcomma
      | cons b bs =>
          rw [List.flatMap_cons, List.flatMap_cons, List.cons_append, List.cons_append,
            List.cons_append, List.cons_append, List.append_assoc, List.append_assoc] at h
          obtain ⟨rfl, hmore⟩ := hparts a (by simp) b (by simp) _ _ (endsValue_more hending as s)
            (endsValue_more hending bs t) (List.cons.inj h).2
          obtain ⟨rfl, hrest⟩ :=
            ih (fun c hc d hd => hparts c (by simp [hc]) d (by simp [hd])) hmore
          exact ⟨rfl, hrest⟩

/-- **Sequences are told apart if their parts are**, and no part begins like the end. -/
theorem eq_of_sequence (hending : ending = ']' ∨ ending = '\x7d')
    (hparts : ∀ a ∈ as, ∀ b ∈ bs, ToldApart f a b)
    (hbegin : ∀ a, a ∈ as ∨ a ∈ bs → ∀ s t, f a ++ s ≠ ending :: t)
    (h : sequence f ending as ++ s = sequence f ending bs ++ t) : as = bs ∧ s = t := by
  cases as with
  | nil =>
      cases bs with
      | nil => exact ⟨rfl, (List.cons.inj h).2⟩
      | cons b bs =>
          rw [sequence, sequence, List.append_assoc] at h
          exact absurd h.symm (hbegin b (.inr (by simp)) _ _)
  | cons a as =>
      cases bs with
      | nil =>
          rw [sequence, sequence, List.append_assoc] at h
          exact absurd h (hbegin a (.inl (by simp)) _ _)
      | cons b bs =>
          refine eq_of_more hending hparts ?_
          simpa [sequence] using h

end

/-! ### Telling values apart -/

/-- The value can be told from all others. -/
def Separable (v : Json) : Prop := ∀ w : Json, w.IsPlain → ToldApart chars v w

theorem separable_count (n : Nat) : (count n).Separable := by
  have hinner : ∀ m, ∀ c ∈ Nat.toDigits 10 m, isInner c = true := fun m c hc =>
    isInner_of_isNumeric (NumberStyle.isNumeric_of_isDigits (Decimal.isDigits_toDigits m) c hc)
  intro w hw s t hs ht h
  have hkind := kind_eq (isPlain_count n) hw h
  cases w with
  | null | string | array | object => cases hkind
  | count m =>
      rw [chars, chars] at h
      obtain ⟨hdigits, hrest⟩ := eq_of_inner (hinner n) (hinner m) hs ht h
      rw [Decimal.toDigits_injective hdigits]
      exact ⟨rfl, hrest⟩
  | number y =>
      have hshape := isNumberText_numberText (isPlain_number.mp hw)
      rw [chars, chars] at h
      obtain ⟨hdigits, -⟩ := eq_of_inner (hinner n)
        (fun c hc => isInner_of_isNumeric (hshape.isNumeric c hc)) hs ht h
      rw [← hdigits] at hshape
      exact absurd (Decimal.isDigits_toDigits n) hshape.not_isDigits

theorem separable_number {x : Binary64} (hx : x.IsPlain) : (number x).Separable := by
  have hinner : ∀ {y : Binary64}, y.IsPlain → ∀ c ∈ (numberText y).toList, isInner c = true :=
    fun hy c hc => isInner_of_isNumeric ((isNumberText_numberText hy).isNumeric c hc)
  intro w hw s t hs ht h
  have hkind := kind_eq (isPlain_number.mpr hx) hw h
  cases w with
  | null | string | array | object => cases hkind
  | count m =>
      obtain ⟨heq, -⟩ := separable_count m (number x) (isPlain_number.mpr hx) t s ht hs h.symm
      cases heq
  | number y =>
      have hy := isPlain_number.mp hw
      rw [chars, chars] at h
      obtain ⟨htext, hrest⟩ := eq_of_inner (hinner hx) (hinner hy) hs ht h
      rw [numberText, numberText, if_pos hx.1, if_pos hy.1, String.toList_ofList,
        String.toList_ofList] at htext
      rw [numberStyle.write_injective hx hy htext]
      exact ⟨rfl, hrest⟩

theorem separable_string (text : String) : (string text).Separable := by
  intro w hw s t _ _ h
  have hkind := kind_eq (isPlain_string text) hw h
  cases w with
  | null | count | number | array | object => cases hkind
  | string other =>
      rw [chars, chars] at h
      obtain ⟨rfl, hrest⟩ := eq_of_quote h
      exact ⟨rfl, hrest⟩

theorem separable_array {items : List Json} (hplain : (array items).IsPlain)
    (hitems : ∀ item ∈ items, item.Separable) : (array items).Separable := by
  intro w hw s t _ _ h
  have hkind := kind_eq hplain hw h
  cases w with
  | null | count | number | string | object => cases hkind
  | array others =>
      rw [chars_array, chars_array] at h
      rw [isPlain_array] at hplain hw
      have hbegin : ∀ item, item ∈ items ∨ item ∈ others →
          ∀ s t, item.chars ++ s ≠ ']' :: t := by
        rintro item (hitem | hitem)
        · exact chars_ne_closing (hplain item hitem)
        · exact chars_ne_closing (hw item hitem)
      obtain ⟨rfl, hrest⟩ := eq_of_sequence (.inl rfl)
        (fun item hitem other hother => hitems item hitem other (hw other hother)) hbegin
        (List.cons.inj h).2
      exact ⟨rfl, hrest⟩

theorem separable_object {fields : List (String × Json)} (hplain : (object fields).IsPlain)
    (hfields : ∀ field ∈ fields, field.2.Separable) : (object fields).Separable := by
  intro w hw s t _ _ h
  have hkind := kind_eq hplain hw h
  cases w with
  | null | count | number | string | array => cases hkind
  | object others =>
      rw [chars_object, chars_object] at h
      rw [isPlain_object] at hplain hw
      have hparts : ∀ field ∈ fields, ∀ other ∈ others, ToldApart fieldChars field other := by
        intro field hfield other hother s t hs ht heq
        rw [fieldChars, fieldChars, List.append_assoc, List.append_assoc] at heq
        obtain ⟨hname, hvalues⟩ := eq_of_quote heq
        obtain ⟨hvalue, hrest⟩ := hfields field hfield other.2 (hw other hother) s t hs ht
          (List.cons.inj hvalues).2
        exact ⟨Prod.ext hname hvalue, hrest⟩
      have hbegin : ∀ field, field ∈ fields ∨ field ∈ others →
          ∀ s t, fieldChars field ++ s ≠ '\x7d' :: t := by
        intro field _ s t heq
        rw [fieldChars, quote, String.toList_ofList] at heq
        exact absurd (List.cons.inj heq).1 (by decide)
      obtain ⟨rfl, hrest⟩ := eq_of_sequence (.inr rfl) hparts hbegin (List.cons.inj h).2
      exact ⟨rfl, hrest⟩

/-- **A value can be told from the text behind it.** -/
theorem separable {v : Json} (h : v.IsPlain) : v.Separable := by
  induction v using induct with
  | null =>
      intro w hw s t _ _ h
      have hkind := kind_eq isPlain_null hw h
      cases w with
      | null => exact ⟨rfl, List.append_cancel_left h⟩
      | count | number | string | array | object => cases hkind
  | count n => exact separable_count n
  | number x => exact separable_number (isPlain_number.mp h)
  | string text => exact separable_string text
  | array items ih =>
      have hitems := isPlain_array.mp h
      exact separable_array h fun item hitem => ih item hitem (hitems item hitem)
  | object fields ih =>
      have hfields := isPlain_object.mp h
      exact separable_object h fun field hfield => ih field hfield (hfields field hfield)

/-- **Different values have different texts.** -/
theorem text_injective {v w : Json} (hv : v.IsPlain) (hw : w.IsPlain) (h : v.text = w.text) :
    v = w := by
  have hends : EndsValue [] := by simp [EndsValue]
  have hchars : v.chars ++ [] = w.chars ++ [] := by
    rw [← toList_text, ← toList_text, h]
  exact (separable hv w hw [] [] hends hends hchars).1

end Formula.Json
