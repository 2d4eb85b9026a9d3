import HaskellAgent.Lib.JsonTexts
import HaskellAgent.Loop.InputItems

/-!
# String fields of a streaming JSON object

The arguments of a tool call arrive in pieces, and a preview of a string field is read off the part
received so far.  The field is located by the first occurrence of its quoted key; the received part
of its value is decoded after a trailing incomplete escape has been dropped.

An incomplete escape is recognised by its characters alone, so that an escaped backslash before a
`u` is taken for one, and the first half of a surrogate pair is not.  The quoted key may also stand
in a place that is not the field's.
-/

open List Option

namespace HaskellAgent

open JsonText

/-! ### The reader -/

/-- The JSON decoder. -/
structure JsonTextDecoder where
  /-- `Json.decodeText (Json.object (Json.atKey key Json.text))`. -/
  objectField : Text → Text → Option Text
  /-- `Json.decodeText Json.text`. -/
  string : Text → Option Text

/-- The text before the first occurrence of the needle, and the text from it on. -/
def breakOn (needle : Text) : Text → Text × Text
  | [] => ([], [])
  | c :: cs =>
      if needle.isPrefixOf (c :: cs) then ([], c :: cs)
      else (c :: (breakOn needle cs).1, (breakOn needle cs).2)

/-- The text up to the end of the last occurrence of the needle, and the text after it. -/
def breakOnEnd (needle text : Text) : Text × Text :=
  let broken := breakOn needle.reverse text.reverse
  (broken.2.reverse, broken.1.reverse)

/-- The loop of `takeStringBody`; every round reads at least a quote. -/
def scanBody (input : Text) : ℕ → ℕ → Text → Text
  | 0, _, _ => input
  | fuel + 1, offset, remaining =>
      let before := remaining.takeWhile (· ≠ '"')
      let after := remaining.dropWhile (· ≠ '"')
      let nextOffset := offset + before.length
      if after.isEmpty then input
      else if (trailingSlashes before).length % 2 = 1 then
        scanBody input fuel (nextOffset + 1) (after.drop 1)
      else input.take nextOffset

def takeStringBody (input : Text) : Text := scanBody input (input.length + 1) 0 input

/-- The start of a hexadecimal escape. -/
def escapeMarker : Text := "\\u".toList

def completeEscapePrefix (body : Text) : Text :=
  if (trailingSlashes body).length % 2 = 1 then body.dropLast
  else
    let (throughMarker, digits) := breakOnEnd escapeMarker body
    if throughMarker = [] then body
    else if digits.length < 4 ∧ digits.all isHexDigit then
      body.take (body.length - (2 + digits.length))
    else body

/-- `Text.uncons`, where the first character is matched. -/
def unconsChar (c : Char) : Text → Option Text
  | [] => none
  | d :: rest => if d = c then some rest else none

/-- The text behind the quote that opens the located value. -/
def bodyStart (key arguments : Text) : Option Text :=
  let marker := '"' :: (key ++ ['"'])
  let marked := (breakOn marker arguments).2
  if marked = [] then none
  else
    let afterKey := (marked.drop marker.length).dropWhile isSpace
    (unconsChar ':' afterKey).bind fun afterColon =>
      unconsChar '"' (afterColon.dropWhile isSpace)

section Reader

variable (dec : JsonTextDecoder)

def jsonTextField (key arguments : Text) : Option Text := dec.objectField key arguments

def jsonTextFieldDefault (key arguments : Text) : Text := (jsonTextField dec key arguments).getD []

def jsonTextFieldPartial (key arguments : Text) : Option Text :=
  jsonTextField dec key arguments <|>
    (bodyStart key arguments).bind fun start =>
      dec.string ('"' :: (completeEscapePrefix (takeStringBody start) ++ ['"']))

end Reader

/-! ### Locating -/

theorem breakOn_found (needle t : Text) :
    (breakOn needle t).2 = [] ∨ needle <+: (breakOn needle t).2 := by
  induction t with
  | nil => exact .inl rfl
  | cons c t ih =>
    rw [breakOn]
    split
    · next hneedle => exact .inr (List.isPrefixOf_iff_prefix.mp hneedle)
    · exact ih

theorem breakOn_eq (needle t : Text) : (breakOn needle t).1 ++ (breakOn needle t).2 = t := by
  induction t with
  | nil => rfl
  | cons c t ih =>
    rw [breakOn]
    split
    · rfl
    · rw [cons_append, ih]

theorem breakOn_suffix (needle t : Text) : (breakOn needle t).2 <:+ t := ⟨_, breakOn_eq needle t⟩

/-- The first occurrence stays the first when the text grows. -/
theorem breakOn_append {needle t : Text} (h : (breakOn needle t).2 ≠ []) (s : Text) :
    (breakOn needle (t ++ s)).2 = (breakOn needle t).2 ++ s := by
  induction t with
  | nil => exact absurd rfl h
  | cons c t ih =>
    rw [cons_append, breakOn, breakOn]
    rw [breakOn] at h
    by_cases hneedle : needle.isPrefixOf (c :: t) = true
    · have hgrown : needle.isPrefixOf (c :: (t ++ s)) = true :=
        isPrefixOf_iff_prefix.mpr
          ((List.isPrefixOf_iff_prefix.mp hneedle).trans (prefix_append (c :: t) s))
      rw [if_pos hneedle, if_pos hgrown]
      rfl
    · rw [if_neg hneedle] at h ⊢
      have hfound := (breakOn_found needle t).resolve_left h
      have hgrown : ¬ needle.isPrefixOf (c :: (t ++ s)) = true := by
        rw [List.isPrefixOf_iff_prefix] at hneedle ⊢
        intro hle
        -- the needle fits into the text, as it occurs later in it
        have hlength := hfound.length_le.trans (breakOn_suffix needle t).length_le
        have hfits : needle.length ≤ (c :: t).length := by
          rw [length_cons]
          omega
        exact hneedle (prefix_of_prefix_length_le hle (prefix_append (c :: t) s) hfits)
      rw [if_neg hgrown]
      exact ih h

theorem unconsChar_eq_some {c : Char} {t rest : Text} (h : unconsChar c t = some rest) :
    t = c :: rest := by
  cases t with
  | nil => cases h
  | cons d t =>
    rw [unconsChar] at h
    split at h
    · next hd =>
      cases h
      rw [hd]
    · cases h

theorem unconsChar_cons (c : Char) (rest : Text) : unconsChar c (c :: rest) = some rest :=
  if_pos rfl

theorem dropWhile_append_of_cons {p : Char → Bool} {t rest : Text} {c : Char}
    (h : t.dropWhile p = c :: rest) (s : Text) : (t ++ s).dropWhile p = c :: (rest ++ s) := by
  rw [dropWhile_append, h]
  rfl

/-- Where a value begins, the text has its opening quote. -/
theorem bodyStart_suffix {key t start : Text} (h : bodyStart key t = some start) :
    '"' :: start <:+ t := by
  simp only [bodyStart] at h
  split at h
  · cases h
  · obtain ⟨afterColon, hcolon, hquote⟩ := bind_eq_some_iff.mp h
    have hkey := unconsChar_eq_some hcolon
    have hstart := unconsChar_eq_some hquote
    have hvalue : '"' :: start <:+ afterColon := hstart ▸ dropWhile_suffix isSpace
    have hafterKey := dropWhile_suffix isSpace
      (l := (breakOn ('"' :: (key ++ ['"'])) t).2.drop ('"' :: (key ++ ['"'])).length)
    rw [hkey] at hafterKey
    exact hvalue.trans ((suffix_cons ':' afterColon).trans
      (hafterKey.trans ((drop_suffix _ _).trans (breakOn_suffix _ t))))

/-- The located value stays the same when the text grows. -/
theorem bodyStart_append {key t start : Text} (h : bodyStart key t = some start) (s : Text) :
    bodyStart key (t ++ s) = some (start ++ s) := by
  simp only [bodyStart] at h ⊢
  split at h
  · cases h
  · next hmarked =>
    have hfound := (breakOn_found _ t).resolve_left hmarked
    obtain ⟨afterColon, hcolon, hquote⟩ := bind_eq_some_iff.mp h
    rw [breakOn_append hmarked, if_neg (by simp [hmarked]),
      drop_append_of_le_length hfound.length_le,
      dropWhile_append_of_cons (unconsChar_eq_some hcolon), unconsChar_cons, Option.bind_some,
      dropWhile_append_of_cons (unconsChar_eq_some hquote), unconsChar_cons]

/-! ### The body -/

theorem takeWhile_ne_quote (t : Text) : '"' ∉ t.takeWhile (· ≠ '"') := by
  intro hmem
  have hall : (t.takeWhile (· ≠ '"')).all (· ≠ '"') = true := all_takeWhile
  have hquote := List.all_eq_true.mp hall _ hmem
  simp at hquote

theorem scanBody_eq {input : Text} (fuel : ℕ) {done remaining : Text}
    (hinput : input = done ++ remaining) (hfuel : remaining.length < fuel) :
    scanBody input fuel done.length remaining = done ++ stringBody .inside remaining := by
  induction fuel generalizing done remaining with
  | zero => omega
  | succ fuel ih =>
    have hsplit := takeWhile_append_dropWhile (p := (· ≠ '"')) (l := remaining)
    have hbefore := stays_of_not_mem (takeWhile_ne_quote remaining)
    have hscan := scan_eq_of_stays hbefore
    simp only [scanBody]
    generalize remaining.takeWhile (· ≠ '"') = before at hsplit hbefore hscan ⊢
    cases hafter : remaining.dropWhile (· ≠ '"') with
    | nil =>
      rw [hafter, List.append_nil] at hsplit
      rw [if_pos (by rfl), ← hsplit, stringBody_of_stays hbefore, hsplit, ← hinput]
    | cons c after =>
      have hc : c = '"' := by
        have hhead := List.head?_dropWhile_not (· ≠ '"') remaining
        rw [hafter] at hhead
        simpa using hhead
      subst hc
      rw [hafter] at hsplit
      rw [if_neg (by simp), ← hsplit, stringBody_append hbefore, hscan]
      by_cases hodd : (trailingSlashes before).length % 2 = 1
      · -- the quote is escaped
        rw [if_pos hodd, if_pos hodd]
        have hlength : done.length + before.length + 1 = (done ++ before ++ ['"']).length := by
          simp only [length_append, length_singleton]
        have hrest : after.length < fuel := by
          rw [← hsplit] at hfuel
          simp only [length_append, length_cons] at hfuel
          omega
        have hdone : input = (done ++ before ++ ['"']) ++ after := by
          rw [hinput, ← hsplit]
          simp
        rw [hlength, drop_one, tail_cons, ih hdone hrest]
        show _ = done ++ (before ++ '"' :: stringBody .inside after)
        simp
      · rw [if_neg hodd, if_neg hodd, hinput, ← hsplit, ← append_assoc, ← length_append,
          take_left']
        · show done ++ before = done ++ (before ++ [])
          rw [List.append_nil]
        · rfl

/-- **The body ends at the first quote that is not escaped.** -/
theorem takeStringBody_eq (input : Text) : takeStringBody input = stringBody .inside input := by
  have hinput : input = [] ++ input := rfl
  exact scanBody_eq (input.length + 1) hinput (Nat.lt_succ_self _)

/-! ### Escapes -/

theorem breakOn_marker {lead : Text} (h : '\\' ∉ lead) (rest : Text) :
    breakOn ['u', '\\'] (lead ++ 'u' :: '\\' :: rest) = (lead, 'u' :: '\\' :: rest) := by
  induction lead with
  | nil => rfl
  | cons c lead ih =>
    rw [mem_cons, not_or] at h
    have hnot : ¬ ['u', '\\'].isPrefixOf (c :: (lead ++ 'u' :: '\\' :: rest)) = true := by
      rw [List.isPrefixOf_iff_prefix, cons_prefix_cons]
      rintro ⟨-, hnext⟩
      cases lead with
      | nil => exact absurd (cons_prefix_cons.mp hnext).1 (by decide)
      | cons d lead => exact h.2 ((cons_prefix_cons.mp hnext).1 ▸ mem_cons_self)
    rw [cons_append, breakOn, if_neg hnot, ih h.2]

/-- The last marker, if no backslash follows it. -/
theorem breakOnEnd_marker (lead : Text) {digits : Text} (h : '\\' ∉ digits) :
    breakOnEnd escapeMarker (lead ++ '\\' :: 'u' :: digits) =
      (lead ++ ['\\', 'u'], digits) := by
  have hreverse : (lead ++ '\\' :: 'u' :: digits).reverse =
      digits.reverse ++ 'u' :: '\\' :: lead.reverse := by simp
  show ((breakOn ['u', '\\'] _).2.reverse, (breakOn ['u', '\\'] _).1.reverse) = _
  rw [hreverse, breakOn_marker (by simpa using h)]
  simp

/-- The text around the last marker. -/
theorem eq_of_breakOnEnd {t throughMarker digits : Text}
    (h : breakOnEnd escapeMarker t = (throughMarker, digits)) (hfound : throughMarker ≠ []) :
    ∃ lead, t = lead ++ '\\' :: 'u' :: digits := by
  have h : ((breakOn ['u', '\\'] t.reverse).2.reverse, (breakOn ['u', '\\'] t.reverse).1.reverse) =
      (throughMarker, digits) := h
  cases h
  have hne : (breakOn ['u', '\\'] t.reverse).2 ≠ [] := by simpa using hfound
  obtain ⟨rest, hrest⟩ := (breakOn_found ['u', '\\'] t.reverse).resolve_left hne
  have heq := breakOn_eq ['u', '\\'] t.reverse
  rw [← hrest] at heq
  have hreverse := congrArg List.reverse heq
  rw [reverse_reverse] at hreverse
  exact ⟨rest.reverse, hreverse.symm.trans (by simp)⟩

/-- The body ends in an escaped backslash, a `u` and less than four hexadecimal digits. -/
def EndsInSlashU (body : Text) : Prop :=
  ∃ us digits, ValidUnits us ∧ body = unitsText us ++ '\\' :: '\\' :: 'u' :: digits ∧
    digits.length < 4 ∧ digits.all isHexDigit

theorem slash_not_mem {digits : Text} (h : digits.all isHexDigit) : '\\' ∉ digits := by
  intro hmem
  cases List.all_eq_true.mp h _ hmem

/-- Whole units that end as an incomplete escape does end in an escaped backslash before it. -/
theorem endsInSlashU_of_marker {us : List StringUnit} (h : ValidUnits us) {lead digits : Text}
    (heq : unitsText us = lead ++ '\\' :: 'u' :: digits) (hlength : digits.length < 4)
    (hdigits : digits.all isHexDigit) : EndsInSlashU (unitsText us) := by
  suffices ∃ vs, ValidUnits vs ∧ lead = unitsText vs ++ ['\\'] by
    obtain ⟨vs, hvs, rfl⟩ := this
    exact ⟨vs, digits, hvs, by simp [heq], hlength, hdigits⟩
  induction us generalizing lead with
  | nil => simp at heq
  | cons u us ih =>
    rw [validUnits_cons] at h
    rw [unitsText_cons] at heq
    cases u with
    | plain c =>
      cases lead with
      | nil => exact absurd (List.cons.inj heq).1 h.1.2.1
      | cons d lead =>
        obtain ⟨rfl, htail⟩ := List.cons.inj heq
        obtain ⟨vs, hvs, rfl⟩ := ih h.2 htail
        exact ⟨.plain c :: vs, validUnits_cons.mpr ⟨h.1, hvs⟩, rfl⟩
    | short c =>
      rcases lead with _ | ⟨d, _ | ⟨e, lead⟩⟩
      all_goals
        simp only [StringUnit.text, cons_append, nil_append, List.cons.injEq] at heq
      · -- no short escape begins like a hexadecimal one
        rw [heq.2.1] at h
        cases h.1
      · exact ⟨[], fun _ hu => (by cases hu), by rw [← heq.1]; rfl⟩
      · obtain ⟨rfl, rfl, htail⟩ := heq
        obtain ⟨vs, hvs, rfl⟩ := ih h.2 htail
        exact ⟨.short c :: vs, validUnits_cons.mpr ⟨h.1, hvs⟩, rfl⟩
    | hex a b c d =>
      obtain ⟨ha, hb, hc, hd⟩ := h.1
      have hslash : ∀ {x : Char}, isHexDigit x → x ≠ '\\' := fun hx => isHexDigit_ne hx rfl
      rcases lead with _ | ⟨x₁, _ | ⟨x₂, _ | ⟨x₃, _ | ⟨x₄, _ | ⟨x₅, _ | ⟨x₆, lead⟩⟩⟩⟩⟩⟩
      all_goals
        simp only [StringUnit.text, cons_append, nil_append, List.cons.injEq] at heq
      · -- the marker of the unit has its four digits
        rw [← heq.2.2] at hlength
        simp only [length_cons] at hlength
        omega
      · exact absurd heq.2.1 (by decide)
      · exact absurd heq.2.2.1 (hslash ha)
      · exact absurd heq.2.2.2.1 (hslash hb)
      · exact absurd heq.2.2.2.2.1 (hslash hc)
      · exact absurd heq.2.2.2.2.2.1 (hslash hd)
      · obtain ⟨rfl, rfl, rfl, rfl, rfl, rfl, htail⟩ := heq
        obtain ⟨vs, hvs, rfl⟩ := ih h.2 htail
        exact ⟨.hex a b c d :: vs, validUnits_cons.mpr ⟨h.1, hvs⟩, rfl⟩

/-- **What is left of a cut body**: its whole units. -/
theorem completeEscapePrefix_append {us : List StringUnit} (h : ValidUnits us) {part : Text}
    (hpart : CutEscape part) (hstays : Stays (unitsText us ++ part))
    (hends : ¬ EndsInSlashU (unitsText us ++ part)) :
    completeEscapePrefix (unitsText us ++ part) = unitsText us := by
  have hodd := scan_eq_of_stays hstays
  rw [scan_append, scan_unitsText h] at hodd
  cases hpart with
  | none =>
    have heven : ¬ (trailingSlashes (unitsText us ++ [])).length % 2 = 1 := by
      intro hslashes
      rw [if_pos hslashes] at hodd
      cases hodd
    rw [completeEscapePrefix, if_neg heven, List.append_nil]
    rw [List.append_nil] at hends
    rcases hmarker : breakOnEnd escapeMarker (unitsText us) with ⟨throughMarker, digits⟩
    dsimp only
    split
    · rfl
    · next hfound =>
      obtain ⟨lead, hlead⟩ := eq_of_breakOnEnd hmarker hfound
      rw [if_neg]
      rintro ⟨hlength, hdigits⟩
      exact hends (endsInSlashU_of_marker h hlead hlength hdigits)
  | slash =>
    have hslashes : (trailingSlashes (unitsText us ++ ['\\'])).length % 2 = 1 := by
      by_contra heven
      rw [if_neg heven] at hodd
      cases hodd
    rw [completeEscapePrefix, if_pos hslashes, dropLast_concat]
  | digits ds hlength hdigits =>
    have heven : ¬ (trailingSlashes (unitsText us ++ '\\' :: 'u' :: ds)).length % 2 = 1 := by
      intro hslashes
      rw [if_pos hslashes] at hodd
      have hinside : scan .inside ('\\' :: 'u' :: ds) = .inside := by
        show scan .inside ds = .inside
        exact scan_hexDigits hdigits
      rw [hinside] at hodd
      cases hodd
    have hall : ds.all isHexDigit := List.all_eq_true.mpr hdigits
    rw [completeEscapePrefix, if_neg heven, breakOnEnd_marker _ (slash_not_mem hall)]
    dsimp only
    rw [if_neg (by simp), if_pos ⟨hlength, hall⟩]
    have hlength : (unitsText us ++ '\\' :: 'u' :: ds).length - (2 + ds.length) =
        (unitsText us).length := by
      simp only [length_append, length_cons]
      omega
    rw [hlength, take_left]

/-- An escaped backslash loses its second half, and what is left is no body. -/
theorem not_stringBody_of_endsInSlashU {body : Text} (hstays : Stays body) (h : EndsInSlashU body)
    (value : Text) : ¬ StringBody (completeEscapePrefix body) value := by
  obtain ⟨us, digits, hus, rfl, hlength, hdigits⟩ := h
  have hall := List.all_eq_true.mp hdigits
  have heven :
      ¬ (trailingSlashes (unitsText us ++ '\\' :: '\\' :: 'u' :: digits)).length % 2 = 1 := by
    intro hslashes
    have hodd := scan_eq_of_stays hstays
    have hinside : scan .inside ('\\' :: '\\' :: 'u' :: digits) = .inside := by
      show scan .inside digits = .inside
      exact scan_hexDigits hall
    rw [if_pos hslashes, scan_append, scan_unitsText hus, hinside] at hodd
    cases hodd
  have hsplit : unitsText us ++ '\\' :: '\\' :: 'u' :: digits =
      (unitsText us ++ ['\\']) ++ '\\' :: 'u' :: digits := by simp
  have hcut : completeEscapePrefix (unitsText us ++ '\\' :: '\\' :: 'u' :: digits) =
      unitsText us ++ ['\\'] := by
    rw [completeEscapePrefix, if_neg heven, hsplit, breakOnEnd_marker _ (slash_not_mem hdigits)]
    dsimp only
    rw [if_neg (by simp), if_pos ⟨hlength, hdigits⟩]
    have htake : ((unitsText us ++ ['\\']) ++ '\\' :: 'u' :: digits).length -
        (2 + digits.length) = (unitsText us ++ ['\\']).length := by
      simp only [length_append, length_cons, length_nil]
      omega
    rw [htake, take_left]
  rw [hcut]
  rintro ⟨vs, hvs, heq, -⟩
  obtain ⟨ws, rfl, hws⟩ := units_of_append hus hvs heq
  -- no unit is a single backslash
  cases ws with
  | nil => cases hws
  | cons w ws =>
    have hw : w.Valid := hvs w (by simp)
    cases w with
    | plain c => exact hw.2.1 (List.cons.inj hws).1.symm
    | short c | hex a b c d => cases (List.cons.inj hws).2

/-! ### Texts with an object -/

/-- The text of an object with a string field, cut at the value: what stands before the field, how
its key and its value are spelled, and what stands behind it. -/
structure ObjectWithField (key value : Text) where
  outer : Text
  before : Text
  keySpace : Text
  keyUnits : List StringUnit
  colonSpace : Text
  valueSpace : Text
  units : List StringUnit
  valueEnd : Text
  after : Text
  rest : Text
  outer_space : IsSpace outer
  before_members : before = [] ∨ ∃ members, Derives .members members ∧ before = members ++ [',']
  keySpace_space : IsSpace keySpace
  key_units : ValidUnits keyUnits ∧ decodeUnits keyUnits = some key
  colonSpace_space : IsSpace colonSpace
  valueSpace_space : IsSpace valueSpace
  value_units : ValidUnits units ∧ decodeUnits units = some value
  valueEnd_space : IsSpace valueEnd
  after_members : after = [] ∨ ∃ members, Derives .members members ∧ after = ',' :: members
  rest_space : IsSpace rest

namespace ObjectWithField

variable {key value : Text} (o : ObjectWithField key value)

/-- The key of the field, and its colon. -/
def keyText : Text :=
  o.keySpace ++ ('"' :: (unitsText o.keyUnits ++ ['"'])) ++ o.colonSpace ++ ':' :: o.valueSpace

/-- The text up to the quote that opens the value. -/
def opening : Text := o.outer ++ '{' :: (o.before ++ o.keyText ++ ['"'])

/-- The text from the quote that closes the value. -/
def closing : Text := '"' :: (o.valueEnd ++ o.after ++ '}' :: o.rest)

def text : Text := o.opening ++ unitsText o.units ++ o.closing

theorem keyText_key : KeyText o.keyText :=
  ⟨_, _, _, _, o.keySpace_space, ⟨_, o.key_units.1, rfl⟩, o.colonSpace_space, o.valueSpace_space,
    rfl⟩

/-- What stands between the brackets. -/
def inner : Text :=
  o.before ++ (o.keyText ++ ('"' :: (unitsText o.units ++ ['"'])) ++ o.valueEnd ++ o.after)

theorem inner_members : Derives .members o.inner := by
  have hfield : StringText ('"' :: (unitsText o.units ++ ['"'])) := ⟨_, o.value_units.1, rfl⟩
  have hmember : Derives .members
      (o.keyText ++ ('"' :: (unitsText o.units ++ ['"'])) ++ o.valueEnd ++ o.after) := by
    rcases o.after_members with hafter | ⟨members, hmembers, hafter⟩
    · rw [hafter, List.append_nil]
      exact .member o.keyText_key (.string hfield) o.valueEnd_space
    · rw [hafter]
      exact .members o.keyText_key (.string hfield) o.valueEnd_space hmembers
  rcases o.before_members with hbefore | ⟨members, hmembers, hbefore⟩
  · rwa [inner, hbefore, nil_append]
  · rw [inner, hbefore, append_assoc, singleton_append]
    exact hmembers.append_members hmember

theorem text_eq : o.text = (o.outer ++ '{' :: o.inner) ++ '}' :: o.rest := by
  simp [text, opening, closing, inner]

/-- The text is the text of an object. -/
theorem objectText : ObjectText o.text :=
  ⟨o.outer, o.inner, o.rest, o.outer_space, .inr o.inner_members, o.rest_space,
    by rw [text_eq, append_assoc, cons_append]⟩

theorem scan_opening : scan .outside o.opening = .inside := by
  have hbefore : scan .outside o.before = .outside := by
    rcases o.before_members with hbefore | ⟨members, hmembers, hbefore⟩
    · rw [hbefore, scan_nil]
    · rw [hbefore, scan_append, hmembers.level.scan]
      rfl
  rw [opening, scan_append, o.outer_space.level.scan]
  show scan .outside (o.before ++ o.keyText ++ ['"']) = _
  rw [scan_append, scan_append, hbefore, o.keyText_key.level.scan]
  rfl

/-- A text cut inside the value is not the text of an object. -/
theorem not_objectText (n : ℕ) : ¬ ObjectText (o.opening ++ (unitsText o.units).take n) := by
  intro h
  have hscan := h.level.scan
  rw [scan_append, o.scan_opening] at hscan
  exact scan_take_unitsText o.value_units.1 n hscan

/-- The last character before the value's quote is no backslash. -/
theorem opening_eq : ∃ lead c, o.opening = lead ++ [c, '"'] ∧ c ≠ '\\' := by
  have hcolon : ∀ space : Text, IsSpace space →
      ∃ lead c, ':' :: space = lead ++ [c] ∧ c ≠ '\\' := by
    intro space hspace
    rcases eq_nil_or_concat space with rfl | ⟨lead, c, rfl⟩
    · exact ⟨[], ':', rfl, by decide⟩
    · refine ⟨':' :: lead, c, by simp, ?_⟩
      rcases hspace c (by simp) with rfl | rfl | rfl | rfl
      all_goals decide
  obtain ⟨lead, c, hlead, hc⟩ := hcolon o.valueSpace o.valueSpace_space
  refine ⟨o.outer ++ '{' :: (o.before ++ (o.keySpace ++ ('"' :: (unitsText o.keyUnits ++ ['"'])) ++
    o.colonSpace ++ lead)), c, ?_, hc⟩
  simp [opening, keyText, hlead]

end ObjectWithField

/-- The decoder accepts valid JSON only, strings exactly, and finds the field. -/
structure JsonTextDecoder.Reads {key value : Text} (dec : JsonTextDecoder)
    (o : ObjectWithField key value) : Prop where
  strings : ∀ body v, dec.string ('"' :: (body ++ ['"'])) = some v ↔ StringBody body v
  objects : ∀ key p v, dec.objectField key p = some v → ObjectText p
  field : ∀ p, p <+: o.text → ObjectText p → dec.objectField key p = some value

/-- **Every cut behind the opening quote previews a prefix of the value**, and the previews grow. -/
def FaithfulPreview {key value : Text} (dec : JsonTextDecoder) (o : ObjectWithField key value) :
    Prop :=
  ∀ p, o.opening <+: p → p <+: o.text →
    ∃ preview, jsonTextFieldPartial dec key p = some preview ∧ preview <+: value ∧
      ∀ q earlier, o.opening <+: q → q <+: p →
        jsonTextFieldPartial dec key q = some earlier → earlier <+: preview

namespace ObjectWithField

variable {key value : Text} (o : ObjectWithField key value)

/-- The part of the encoded value that a cut text has. -/
def received (p : Text) : Text := (unitsText o.units).take (p.length - o.opening.length)

/-- The units of the value that a cut text has. -/
def receivedUnits (p : Text) : List StringUnit := whole (p.length - o.opening.length) o.units

/-- The object is complete; or the first quoted key is the field's own, and the received part of the
value ends neither in half a surrogate pair, nor in an escaped backslash, a `u` and less than four
digits; or the quoted key is found in another place, where it stands for another string that decodes
to a prefix of the value. -/
def PreviewableAt (p : Text) : Prop :=
  ObjectText p ∨
    if bodyStart key o.opening = some [] then
      ¬ EndsInHalfPair (o.receivedUnits p) ∧ ¬ EndsInSlashU (o.received p)
    else ∃ other v, bodyStart key p = some other ∧
      StringBody (completeEscapePrefix (takeStringBody other)) v ∧ v <+: value

/-- The body that the reader takes is the received part. -/
theorem takeStringBody_received {b : Text} (hb : b <+: unitsText o.units ++ o.closing) :
    takeStringBody b = (unitsText o.units).take b.length := by
  have hstays := stays_unitsText o.value_units.1
  rw [takeStringBody_eq]
  rcases List.prefix_append_cases hb with hb | ⟨r, rfl, hr⟩
  · rw [stringBody_of_stays (hstays.mono hb), ← prefix_iff_eq_take.mp hb]
  · rw [stringBody_append hstays, scan_unitsText o.value_units.1, take_of_length_le (by simp)]
    cases r with
    | nil => rw [stringBody, List.append_nil]
    | cons c r =>
      obtain ⟨rfl, -⟩ := cons_prefix_cons.mp hr
      have hquote : StringState.inside.step '"' = .outside := rfl
      rw [stringBody, if_pos hquote, List.append_nil]

/-- What the received units say is a prefix of the value. -/
theorem decodeUnits_receivedUnits {p preview : Text}
    (h : decodeUnits (o.receivedUnits p) = some preview) : preview <+: value := by
  obtain ⟨rest, hrest⟩ := whole_isPrefix (p.length - o.opening.length) o.units
  have hdecode := decodeUnits_append h rest
  rw [receivedUnits, hrest, o.value_units.2] at hdecode
  obtain ⟨v, -, hv⟩ := map_eq_some_iff.mp hdecode.symm
  exact ⟨v, hv⟩

/-- The string located before the field is closed before the value begins. -/
theorem takeStringBody_other {c : Char} {other : Text}
    (h : bodyStart key o.opening = some (c :: other)) (t : Text) :
    takeStringBody (c :: other ++ t) = takeStringBody (c :: other) := by
  rw [takeStringBody_eq, takeStringBody_eq]
  refine stringBody_closed _ _ fun hbody => ?_
  obtain ⟨lead, d, hopening, hd⟩ := o.opening_eq
  have hsuffix := bodyStart_suffix h
  obtain ⟨front, hfront⟩ := hsuffix
  -- the located text ends with the opening quote of the value
  obtain ⟨init, hinit⟩ : ∃ init, c :: other = init ++ ['"'] := by
    rcases eq_nil_or_concat (c :: other) with hnil | ⟨init, last, hlast⟩
    · cases hnil
    · refine ⟨init, ?_⟩
      have hends : (front ++ '"' :: init) ++ [last] = (lead ++ [d]) ++ ['"'] := by
        have hlead : (lead ++ [d]) ++ ['"'] = lead ++ [d, '"'] := by simp
        rw [hlead, ← hopening, ← hfront, hlast]
        simp
      rw [hlast, concat_eq_append, (append_inj' hends rfl).2]
  have hstays : Stays (init ++ ['"']) := by
    rw [hinit] at hbody
    exact stays_of_stringBody hbody
  have hscan := hstays _ prefix_rfl
  have heven := scan_eq_of_stays (hstays.mono (prefix_append init ['"']))
  have hslashes : trailingSlashes init = [] := by
    rcases eq_nil_or_concat init with rfl | ⟨init', last, rfl⟩
    · rfl
    · have hends : (front ++ '"' :: init') ++ [last, '"'] = lead ++ [d, '"'] := by
        rw [← hopening, ← hfront, hinit]
        simp
      have hlast := (append_inj' hends rfl).2
      rw [concat_eq_append, trailingSlashes_concat, if_neg]
      rw [(List.cons.inj hlast).1]
      exact hd
  rw [hslashes, if_neg (by simp)] at heven
  rw [scan_append, heven] at hscan
  exact hscan rfl

/-! ### Previews -/

variable {o} {dec : JsonTextDecoder} {p : Text}

theorem partial_of_object (h : dec.Reads o) (hp : p <+: o.text) (hobject : ObjectText p) :
    jsonTextFieldPartial dec key p = some value := by
  rw [jsonTextFieldPartial, jsonTextField, h.field p hp hobject]
  rfl

theorem partial_of_cut (h : dec.Reads o) (hobject : ¬ ObjectText p) :
    jsonTextFieldPartial dec key p = (bodyStart key p).bind fun start =>
      dec.string ('"' :: (completeEscapePrefix (takeStringBody start) ++ ['"'])) := by
  have hnone : dec.objectField key p = none := by
    cases hfield : dec.objectField key p with
    | none => rfl
    | some v => exact absurd (h.objects key p v hfield) hobject
  rw [jsonTextFieldPartial, jsonTextField, hnone]
  rfl

/-- **A cut of the located field** previews what its whole units say. -/
theorem partial_eq_some_iff (h : dec.Reads o) (hown : bodyStart key o.opening = some [])
    (hopening : o.opening <+: p) (hp : p <+: o.text) (hobject : ¬ ObjectText p) {v : Text} :
    jsonTextFieldPartial dec key p = some v ↔
      ¬ EndsInSlashU (o.received p) ∧ decodeUnits (o.receivedUnits p) = some v := by
  obtain ⟨b, rfl⟩ := hopening
  have hb : b <+: unitsText o.units ++ o.closing := by
    rw [text, append_assoc] at hp
    exact (prefix_append_right_inj _).mp hp
  have hlength : (o.opening ++ b).length - o.opening.length = b.length := by
    rw [length_append]
    omega
  rw [partial_of_cut h hobject, bodyStart_append hown, Option.bind_some, nil_append, h.strings,
    o.takeStringBody_received hb]
  unfold received receivedUnits
  rw [hlength]
  obtain ⟨part, htake, hpart⟩ := take_unitsText o.value_units.1 b.length
  have hstays : Stays ((unitsText o.units).take b.length) :=
    (stays_unitsText o.value_units.1).mono (List.take_prefix _ _)
  by_cases hends : EndsInSlashU ((unitsText o.units).take b.length)
  · constructor
    · exact fun hbody => absurd hbody (not_stringBody_of_endsInSlashU hstays hends v)
    · exact fun hdecode => absurd hends hdecode.1
  · have hwhole := o.value_units.1.whole b.length
    rw [htake] at hstays hends ⊢
    rw [completeEscapePrefix_append hwhole hpart hstays hends, stringBody_unitsText_iff hwhole]
    exact ⟨fun hdecode => ⟨hends, hdecode⟩, fun hdecode => hdecode.2⟩

/-- A cut where another string is located previews that string. -/
theorem partial_located (h : dec.Reads o) {start : Text} (hstart : bodyStart key p = some start)
    (hobject : ¬ ObjectText p) {v : Text} :
    jsonTextFieldPartial dec key p = some v ↔
      StringBody (completeEscapePrefix (takeStringBody start)) v := by
  rw [partial_of_cut h hobject, hstart, Option.bind_some, h.strings]

theorem receivedUnits_isSome_iff :
    (∃ v, decodeUnits (o.receivedUnits p) = some v) ↔ ¬ EndsInHalfPair (o.receivedUnits p) := by
  constructor
  · rintro ⟨v, hv⟩ hends
    rw [decodeUnits_of_endsInHalfPair hends] at hv
    cases hv
  · intro hends
    have hsome : (decodeUnits o.units).isSome := by rw [o.value_units.2]; rfl
    exact isSome_iff_exists.mp
      ((decodeUnits_of_cut hsome (whole_isPrefix _ o.units)).resolve_right hends)

/-- **When a cut previews a prefix of the value.** -/
theorem previewableAt_iff (h : dec.Reads o) (hopening : o.opening <+: p) (hp : p <+: o.text) :
    (∃ preview, jsonTextFieldPartial dec key p = some preview ∧ preview <+: value) ↔
      o.PreviewableAt p := by
  by_cases hobject : ObjectText p
  · have hvalue := partial_of_object h hp hobject
    exact ⟨fun _ => .inl hobject, fun _ => ⟨value, hvalue, prefix_rfl⟩⟩
  rw [PreviewableAt, or_iff_right hobject]
  by_cases hown : bodyStart key o.opening = some []
  · rw [if_pos hown, ← receivedUnits_isSome_iff]
    constructor
    · rintro ⟨preview, hpreview, -⟩
      obtain ⟨hends, hdecode⟩ := (partial_eq_some_iff h hown hopening hp hobject).mp hpreview
      exact ⟨⟨preview, hdecode⟩, hends⟩
    · rintro ⟨⟨preview, hdecode⟩, hends⟩
      exact ⟨preview, (partial_eq_some_iff h hown hopening hp hobject).mpr ⟨hends, hdecode⟩,
        o.decodeUnits_receivedUnits hdecode⟩
  · rw [if_neg hown]
    constructor
    · rintro ⟨preview, hpreview, hle⟩
      cases hstart : bodyStart key p with
      | none =>
        rw [partial_of_cut h hobject, hstart] at hpreview
        cases hpreview
      | some start =>
        exact ⟨start, preview, rfl, (partial_located h hstart hobject).mp hpreview, hle⟩
    · rintro ⟨start, v, hstart, hbody, hle⟩
      exact ⟨v, (partial_located h hstart hobject).mpr hbody, hle⟩

/-- Later cuts preview more. -/
theorem preview_grows (h : dec.Reads o) (hlocated : bodyStart key o.opening ≠ none)
    {q earlier preview : Text} (hopening : o.opening <+: q) (hq : q <+: p) (hp : p <+: o.text)
    (hearlier : jsonTextFieldPartial dec key q = some earlier) (hle : earlier <+: value)
    (hpreview : jsonTextFieldPartial dec key p = some preview) : earlier <+: preview := by
  by_cases hobject : ObjectText p
  · rw [partial_of_object h hp hobject] at hpreview
    cases hpreview
    exact hle
  have hobject' : ¬ ObjectText q := fun hobject' =>
    hobject (o.objectText.mono hobject' hq hp)
  cases hstart : bodyStart key o.opening with
  | none => exact absurd hstart hlocated
  | some start =>
    cases start with
    | nil =>
      obtain ⟨-, hdecode⟩ := (partial_eq_some_iff h hstart hopening (hq.trans hp) hobject').mp
        hearlier
      obtain ⟨-, hdecode'⟩ := (partial_eq_some_iff h hstart (hopening.trans hq) hp hobject).mp
        hpreview
      have hlength : q.length - o.opening.length ≤ p.length - o.opening.length := by
        have := hq.length_le
        omega
      obtain ⟨rest, hrest⟩ := whole_mono hlength o.units
      have happend := decodeUnits_append hdecode rest
      rw [receivedUnits, hrest, ← receivedUnits, hdecode'] at happend
      obtain ⟨v, -, hv⟩ := map_eq_some_iff.mp happend.symm
      exact ⟨v, hv⟩
    | cons c other =>
      -- both cuts locate the same closed string
      obtain ⟨b, rfl⟩ := hopening
      obtain ⟨b', rfl⟩ := hq
      rw [append_assoc] at hpreview hobject
      have hsame : jsonTextFieldPartial dec key (o.opening ++ (b ++ b')) =
          jsonTextFieldPartial dec key (o.opening ++ b) := by
        rw [partial_of_cut h hobject, partial_of_cut h hobject', bodyStart_append hstart,
          bodyStart_append hstart, Option.bind_some, Option.bind_some,
          o.takeStringBody_other hstart, o.takeStringBody_other hstart]
      rw [hsame, hearlier] at hpreview
      cases hpreview
      exact prefix_rfl

end ObjectWithField

/-- **The previews of an object's text are faithful just if all its cuts are previewable**, and a
cut previews a prefix of the value just if it is previewable. -/
theorem faithfulPreview_iff {key value : Text} {o : ObjectWithField key value}
    {dec : JsonTextDecoder} (h : dec.Reads o) :
    (FaithfulPreview dec o ↔
      ∀ p, o.opening <+: p → p <+: o.text → o.PreviewableAt p) ∧
    ∀ p, o.opening <+: p → p <+: o.text →
      ((∃ preview, jsonTextFieldPartial dec key p = some preview ∧ preview <+: value) ↔
        o.PreviewableAt p) := by
  refine ⟨⟨?_, ?_⟩, fun p => ObjectWithField.previewableAt_iff h⟩
  · intro hfaithful p hopening hp
    obtain ⟨preview, hpreview, hle, -⟩ := hfaithful p hopening hp
    exact (ObjectWithField.previewableAt_iff h hopening hp).mp ⟨preview, hpreview, hle⟩
  · intro hall p hopening hp
    have hat := fun {q} hopening hq => (ObjectWithField.previewableAt_iff h hopening hq).mpr
      (hall q hopening hq)
    obtain ⟨preview, hpreview, hle⟩ := hat hopening hp
    refine ⟨preview, hpreview, hle, fun q earlier hopening' hq hearlier => ?_⟩
    have hlocated : bodyStart key o.opening ≠ none := by
      intro hnone
      have hobject := o.not_objectText 0
      rw [take_zero, List.append_nil] at hobject
      obtain ⟨first, hfirst, -⟩ := hat prefix_rfl (hopening.trans hp)
      rw [ObjectWithField.partial_of_cut h hobject, hnone] at hfirst
      cases hfirst
    obtain ⟨earlier', hearlier', hle'⟩ := hat hopening' (hq.trans hp)
    rw [hearlier] at hearlier'
    cases hearlier'
    exact ObjectWithField.preview_grows h hlocated hopening' hq hp hearlier hle' hpreview

/-! ### Runs -/

/-- A decoder that reads strings, and the field of the one object. -/
def decoderOf {key value : Text} (o : ObjectWithField key value) : JsonTextDecoder where
  objectField := fun _ p =>
    if (o.outer ++ '{' :: o.inner).length < p.length ∧ p <+: o.text then some value else none
  string
    | '"' :: rest => if rest.getLast? = some '"' then decodeString rest.dropLast else none
    | _ => none

theorem decoderOf_reads {key value : Text} (o : ObjectWithField key value) :
    (decoderOf o).Reads o where
  strings := by
    intro body v
    show (if (body ++ ['"']).getLast? = some '"' then decodeString (body ++ ['"']).dropLast
      else none) = some v ↔ _
    rw [List.getLast?_concat, if_pos rfl, dropLast_concat, decodeString_eq_some_iff]
  objects := by
    intro _ p v h
    simp only [decoderOf] at h
    split at h
    · next hp =>
      obtain ⟨hlength, hp⟩ := hp
      rw [o.text_eq] at hp
      rcases List.prefix_append_cases hp with hp | ⟨r, rfl, hr⟩
      · have := hp.length_le
        omega
      · cases r with
        | nil => simp at hlength
        | cons c r =>
          obtain ⟨rfl, hr'⟩ := cons_prefix_cons.mp hr
          exact ⟨o.outer, o.inner, r, o.outer_space, .inr o.inner_members,
            fun d hd => o.rest_space d (hr'.subset hd), by simp⟩
    · cases h
  field := by
    intro p hp hobject
    refine if_pos ⟨?_, hp⟩
    by_contra hshort
    have hcut : p <+: o.outer ++ '{' :: o.inner := by
      rw [o.text_eq] at hp
      exact prefix_of_prefix_length_le hp (prefix_append _ _) (not_lt.mp hshort)
    exact not_objectText_of_cut o.outer_space o.inner_members.level hcut hobject

/-- The object of a single field, spelled without spaces. -/
def singleField (key value : List StringUnit) {k v : Text}
    (hkey : ValidUnits key ∧ decodeUnits key = some k)
    (hvalue : ValidUnits value ∧ decodeUnits value = some v) : ObjectWithField k v where
  outer := []
  before := []
  keySpace := []
  keyUnits := key
  colonSpace := []
  valueSpace := []
  units := value
  valueEnd := []
  after := []
  rest := []
  outer_space := fun _ h => (by cases h)
  before_members := .inl rfl
  keySpace_space := fun _ h => (by cases h)
  key_units := hkey
  colonSpace_space := fun _ h => (by cases h)
  valueSpace_space := fun _ h => (by cases h)
  value_units := hvalue
  valueEnd_space := fun _ h => (by cases h)
  after_members := .inl rfl
  rest_space := fun _ h => (by cases h)

instance (us : List StringUnit) : Decidable (ValidUnits us) :=
  inferInstanceAs (Decidable (∀ u ∈ us, u.Valid))

/-- The arguments of a listing. -/
def listObject : ObjectWithField ['c', 'm', 'd'] ['l', 's'] :=
  singleField [.plain 'c', .plain 'm', .plain 'd'] [.plain 'l', .plain 's'] (by decide) (by decide)

theorem faithfulPreview_in_listObject :
    ∃ preview, jsonTextFieldPartial (decoderOf listObject) ['c', 'm', 'd']
        (listObject.opening ++ ['l']) = some preview ∧ preview <+: ['l', 's'] := by
  refine ((faithfulPreview_iff (decoderOf_reads listObject)).2 _ (prefix_append _ _)
    (by decide +kernel)).mpr (.inr ?_)
  rw [if_pos (by decide +kernel)]
  constructor
  · rintro ⟨vs, u, hvs, -, hu⟩
    have hmem : u ∈ [StringUnit.plain 'l'] := by
      rw [show [StringUnit.plain 'l'] = vs ++ [u] from hvs]
      simp
    rw [mem_singleton.mp hmem] at hu
    cases hu
  · rintro ⟨us, digits, -, hbody, -, -⟩
    have hmem : '\\' ∈ ['l'] := by
      rw [show ['l'] = unitsText us ++ '\\' :: '\\' :: 'u' :: digits from hbody]
      simp
    exact absurd hmem (by decide)

/-- A path with an escaped backslash before a `u`. -/
def pathObject : ObjectWithField ['c', 'm', 'd'] ['C', ':', '\\', 'u', 's', 'r'] :=
  singleField [.plain 'c', .plain 'm', .plain 'd']
    [.plain 'C', .plain ':', .short '\\', .plain 'u', .plain 's', .plain 'r']
    (by decide) (by decide)

/-- **The preview is lost at an escaped backslash before a `u`**, and comes back behind it. -/
theorem preview_lost_at_escaped_slash :
    (decoderOf pathObject).Reads pathObject ∧
    jsonTextFieldPartial (decoderOf pathObject) ['c', 'm', 'd']
      (pathObject.opening ++ ['C', ':', '\\', '\\']) = some ['C', ':', '\\'] ∧
    jsonTextFieldPartial (decoderOf pathObject) ['c', 'm', 'd']
      (pathObject.opening ++ ['C', ':', '\\', '\\', 'u']) = none ∧
    ¬ FaithfulPreview (decoderOf pathObject) pathObject := by
  have hlost : jsonTextFieldPartial (decoderOf pathObject) ['c', 'm', 'd']
      (pathObject.opening ++ ['C', ':', '\\', '\\', 'u']) = none := by decide +kernel
  refine ⟨decoderOf_reads pathObject, by decide +kernel, hlost, fun hfaithful => ?_⟩
  obtain ⟨preview, hpreview, -⟩ := hfaithful _ (prefix_append _ _)
    (by decide +kernel : pathObject.opening ++ ['C', ':', '\\', '\\', 'u'] <+: pathObject.text)
  rw [hlost] at hpreview
  cases hpreview

end HaskellAgent
