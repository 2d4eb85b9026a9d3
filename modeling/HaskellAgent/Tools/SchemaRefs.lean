import HaskellAgent.Loop.InputItems
import HaskellAgent.Lib.JoinTrimmed
import HaskellAgent.Lib.JsonReader
import HaskellAgent.Lib.JsonTexts
import Mathlib.Data.List.SplitOn

/-!
# References inside a JSON schema

The declarations of nested tools are rendered from their schemas.  A `$ref` that points into the
same document is followed: the text behind `#/` is split at the slashes, every segment is decoded,
and the document is walked down by keys of objects and indices of arrays.
-/

open List Option

namespace HaskellAgent

open JsonText JsonText.StringUnit

namespace SchemaRefs

/-! ### The code -/

/-- `Text.replace`; the characters of a needle that was found are skipped. -/
@[grind =] def replaceFrom (needle new : Text) : ℕ → Text → Text
  | _, [] => []
  | skip + 1, _ :: text => replaceFrom needle new skip text
  | 0, c :: text =>
    if needle.isPrefixOf (c :: text) = true then
      new ++ replaceFrom needle new (needle.length - 1) text
    else c :: replaceFrom needle new 0 text

def replace (needle new text : Text) : Text := replaceFrom needle new 0 text

def decodeSegment (segment : Text) : Text :=
  replace ['~', '1'] ['/'] (replace ['~', '0'] ['~'] segment)

def readDigits (base : ℕ) (digits : Text) : Option ℕ :=
  if !digits.isEmpty && digits.all fun d => isHexDigit d && hexValue d < base then
    some (digits.foldl (fun n d => base * n + hexValue d) 0)
  else none

def readLiteral (text : Text) : Option ℕ :=
  match text with
  | '0' :: mark :: digits =>
    if mark == 'x' || mark == 'X' then readDigits 16 digits
    else if mark == 'o' || mark == 'O' then readDigits 8 digits
    else if mark == 'b' || mark == 'B' then readDigits 2 digits
    else readDigits 10 text
  | _ => readDigits 10 text

/-- Blanks and parentheses may stand around a number, and blanks behind its sign. -/
def readNumber : ℕ → Text → Option ℤ
  | 0, _ => none
  | fuel + 1, text =>
    match text.trim isSpace with
    | '-' :: rest => (readLiteral (rest.dropWhile isSpace)).map fun n => -(n : ℤ)
    | '(' :: rest => if rest.getLast? = some ')' then readNumber fuel rest.dropLast else none
    | literal => (readLiteral literal).map fun n => (n : ℤ)

/-- `readMaybe` at `Int`, which wraps around. -/
def readMaybe (text : Text) : Option ℤ :=
  (readNumber (text.length + 1) text).map fun n => n.bmod (2 ^ 64)

def descend (value : Json) (segment : Text) : Option Json :=
  match value with
  | .object members => members.lookup segment
  | .array elements =>
    (readMaybe segment).bind fun index =>
      if index < 0 then none else elements[index.toNat]?
  | _ => none

def resolveLocalRef (root : Json) (ref : Text) : Option Json :=
  match ref with
  | ['#'] => some root
  | '#' :: '/' :: path => ((path.splitOn '/').map decodeSegment).foldlM descend root
  | _ => none

/-! ### Paths and their references -/

/-- One step of a path.  The index into a vector is an `Int`. -/
inductive PathStep
  | key (name : Text)
  | index (i : Fin (2 ^ 63))
  deriving DecidableEq

namespace PathStep

/-- Where a step leads. -/
def walk (value : Json) : PathStep → Option Json
  | key name => match value with
    | .object members => members.lookup name
    | _ => none
  | index i => match value with
    | .array elements => elements[i.val]?
    | _ => none

/-- The segment that stands for a step, before it is escaped. -/
def segment : PathStep → Text
  | key name => name
  | index i => Nat.toDigits 10 i

end PathStep

/-- The escapes of RFC 6901. -/
def encodeChar (c : Char) : Text :=
  if c = '~' then ['~', '0'] else if c = '/' then ['~', '1'] else [c]

def encode (segment : Text) : Text := segment.flatMap encodeChar

def reference (path : List PathStep) : Text :=
  '#' :: '/' :: ['/'].intercalate (path.map fun step => encode step.segment)

/-- In every document in which the path leads somewhere its reference resolves to that place. -/
def Resolves (path : List PathStep) : Prop :=
  ∀ root value, path.foldlM PathStep.walk root = some value →
    resolveLocalRef root (reference path) = some value

/-! ### Decoding a segment -/

theorem replaceFrom_hit (d : Char) (new text : Text) :
    replaceFrom ['~', d] new 0 ('~' :: d :: text) = new ++ replaceFrom ['~', d] new 0 text := by
  simp [replaceFrom]

theorem replaceFrom_miss {d c : Char} {text : Text} (h : c = '~' → text.head? ≠ some d)
    (new : Text) :
    replaceFrom ['~', d] new 0 (c :: text) = c :: replaceFrom ['~', d] new 0 text := by
  have hnot : ¬ ['~', d].isPrefixOf (c :: text) = true := by
    intro hmatch
    obtain ⟨rest, hrest⟩ := isPrefixOf_iff_prefix.mp hmatch
    cases hrest
    exact h rfl rfl
  rw [replaceFrom, if_neg hnot]

/-- The first pass leaves the escapes of slashes. -/
theorem replace_encode (segment : Text) :
    replace ['~', '0'] ['~'] (encode segment)
      = segment.flatMap fun c => if c = '/' then ['~', '1'] else [c] := by
  unfold replace encode
  induction segment with
  | nil => rfl
  | cons c segment ih =>
    rw [flatMap_cons, flatMap_cons, encodeChar]
    by_cases htilde : c = '~'
    · subst htilde
      rw [if_pos rfl, if_neg (by decide)]
      exact (replaceFrom_hit '0' ['~'] _).trans (congrArg _ ih)
    · rw [if_neg htilde]
      by_cases hslash : c = '/'
      · rw [if_pos hslash, cons_append, cons_append, nil_append,
          replaceFrom_miss (by simp), replaceFrom_miss fun h => absurd h (by decide), ih]
        rfl
      · rw [if_neg hslash, singleton_append, replaceFrom_miss fun h => absurd h htilde, ih]
        rfl

/-- The second pass undoes them, but takes `~1` of the key itself for one as well. -/
theorem decodeSegment_encode (segment : Text) :
    decodeSegment (encode segment) = replace ['~', '1'] ['/'] segment := by
  rw [decodeSegment, replace_encode]
  unfold replace
  induction segment using List.twoStepInduction with
  | nil => rfl
  | singleton c =>
    by_cases hslash : c = '/'
    · subst hslash
      decide
    · simp [hslash]
  | cons_cons c d segment ih ihd =>
    rw [flatMap_cons]
    by_cases hslash : c = '/'
    · subst hslash
      rw [if_pos rfl, cons_append, singleton_append, replaceFrom_hit, ihd d]
      exact (replaceFrom_miss (fun h => absurd h (by decide)) _).symm
    · rw [if_neg hslash, singleton_append]
      by_cases hescape : c = '~' ∧ d = '1'
      · obtain ⟨rfl, rfl⟩ := hescape
        rw [flatMap_cons, if_neg (by decide), singleton_append, replaceFrom_hit,
          replaceFrom_hit, ih]
      · have hleft : c = '~' → ((d :: segment).flatMap fun c =>
            if c = '/' then ['~', '1'] else [c]).head? ≠ some '1' := by
          intro hc hhead
          rw [flatMap_cons] at hhead
          by_cases hd : d = '/'
          · rw [if_pos hd] at hhead
            exact absurd hhead (by simp)
          · rw [if_neg hd] at hhead
            exact hescape ⟨hc, some.inj hhead⟩
        have hright : c = '~' → (d :: segment).head? ≠ some '1' := fun hc hd =>
          hescape ⟨hc, some.inj hd⟩
        rw [replaceFrom_miss hleft, ihd d, replaceFrom_miss hright]

/-- Without `~1` in it a text is what it was. -/
theorem replace_eq_self {text : Text} (h : ¬ ['~', '1'] <:+: text) :
    replace ['~', '1'] ['/'] text = text := by
  unfold replace
  induction text with
  | nil => rfl
  | cons c text ih =>
    rw [replaceFrom_miss, ih fun hin => h (hin.trans (suffix_cons c text).isInfix)]
    rintro rfl hhead
    obtain ⟨rest, rfl⟩ := List.head?_eq_some_iff.mp hhead
    exact h ⟨[], rest, rfl⟩

theorem length_replaceFrom_le (skip : ℕ) (text : Text) :
    (replaceFrom ['~', '1'] ['/'] skip text).length ≤ text.length := by
  induction text generalizing skip with
  | nil => rfl
  | cons c text ih =>
    cases skip with
    | zero =>
      rw [replaceFrom]
      split <;> simpa using ih _
    | succ skip => exact (ih skip).trans (Nat.le_succ _)

/-- With `~1` in it a text gets shorter. -/
theorem length_replace_lt {text : Text} (h : ['~', '1'] <:+: text) :
    (replace ['~', '1'] ['/'] text).length < text.length := by
  unfold replace
  induction text with
  | nil => exact absurd (infix_nil.mp h) (cons_ne_nil _ _)
  | cons c text ih =>
    rw [replaceFrom]
    split
    · next hmatch =>
      obtain ⟨rest, hrest⟩ := isPrefixOf_iff_prefix.mp hmatch
      cases hrest
      have hle := length_replaceFrom_le 0 rest
      have hskip : replaceFrom ['~', '1'] ['/'] (['~', '1'].length - 1) (['1'].append rest)
          = replaceFrom ['~', '1'] ['/'] 0 rest := rfl
      rw [hskip, singleton_append, length_cons, length_cons]
      exact Nat.succ_lt_succ (Nat.lt_succ_of_le hle)
    · next hmatch =>
      have hinner : ['~', '1'] <:+: text := by
        obtain hhead | hinner := infix_cons_iff.mp h
        · exact absurd (List.isPrefixOf_iff_prefix.mpr hhead) hmatch
        · exact hinner
      exact Nat.succ_lt_succ (ih hinner)

theorem decodeSegment_encode_eq_iff (segment : Text) :
    decodeSegment (encode segment) = segment ↔ ¬ ['~', '1'] <:+: segment := by
  rw [decodeSegment_encode]
  constructor
  · intro heq hin
    exact absurd (congrArg List.length heq) (length_replace_lt hin).ne
  · exact replace_eq_self

/-! ### Indices -/

theorem hexValue_digit {d : Char} (h : d.isDigit = true) :
    isHexDigit d = true ∧ hexValue d = d.toNat - 48 ∧ hexValue d < 10 := by
  simp only [Char.isDigit, Bool.and_eq_true, decide_eq_true_eq, ge_iff_le] at h
  have hlow : '0' ≤ d := h.1
  have hhigh : d ≤ '9' := h.2
  have hnat : d.toNat ≤ 57 := h.2
  refine ⟨?_, ?_, ?_⟩
  · simp [isHexDigit, hlow, hhigh]
  · rw [hexValue, if_pos hhigh]
  · rw [hexValue, if_pos hhigh]
    omega

theorem foldl_hexValue {digits : Text} (h : ∀ d ∈ digits, d.isDigit = true) (n : ℕ) :
    digits.foldl (fun n d => 10 * n + hexValue d) n = Nat.ofDigitChars 10 digits n := by
  induction digits generalizing n with
  | nil => rw [foldl_nil, Nat.ofDigitChars_nil]
  | cons d digits ih =>
    rw [foldl_cons, ih fun e he => h e (mem_cons_of_mem d he), Nat.ofDigitChars_cons,
      (hexValue_digit (h d mem_cons_self)).2.1]
    rfl

theorem readDigits_toDigits (n : ℕ) : readDigits 10 (Nat.toDigits 10 n) = some n := by
  have hdigits := Json.isDigit_toDigits n
  have hall : (Nat.toDigits 10 n).all (fun d => isHexDigit d && hexValue d < 10) = true :=
    List.all_eq_true.mpr fun d hd => by
      have hdigit := hexValue_digit (hdigits d hd)
      simp [hdigit.1, hdigit.2.2]
  rw [readDigits, if_pos (by simp [hall]), foldl_hexValue hdigits, Nat.ofDigitChars_ten_toDigits]

theorem readLiteral_toDigits (n : ℕ) : readLiteral (Nat.toDigits 10 n) = some n := by
  have hread := readDigits_toDigits n
  unfold readLiteral
  split
  · next mark digits heq =>
    have hmark : mark.isDigit = true := Json.isDigit_toDigits n mark (by rw [heq]; simp)
    have hne {c : Char} (hc : c.isDigit = false) : mark ≠ c := by
      rintro rfl
      exact absurd hmark (by simp [hc])
    rw [if_neg, if_neg, if_neg]
    · exact hread
    all_goals simp [hne]
  · exact hread

theorem isSpace_of_isDigit {d : Char} (h : d.isDigit = true) : isSpace d = false := by
  simp only [Char.isDigit, Bool.and_eq_true, decide_eq_true_eq, ge_iff_le] at h
  have hlow : 48 ≤ d.toNat := h.1
  have hhigh : d.toNat ≤ 57 := h.2
  simp only [isSpace]
  grind

/-- The index of a step is read back. -/
theorem readMaybe_toDigits (i : Fin (2 ^ 63)) : readMaybe (Nat.toDigits 10 i) = some (i : ℤ) := by
  have hdigits := Json.isDigit_toDigits i
  have htrim : (Nat.toDigits 10 i).trim isSpace = Nat.toDigits 10 i := by
    have hall : ∀ d ∈ Nat.toDigits 10 i, ¬ isSpace d = true := fun d hd => by
      simp [isSpace_of_isDigit (hdigits d hd)]
    rw [List.trim, dropWhile_eq_self_iff.mpr fun h => hall _ (getElem_mem h),
      rdropWhile_eq_self_iff.mpr fun h => hall _ (getLast_mem h)]
  have hwrap : ((i : ℕ) : ℤ).bmod (2 ^ 64) = i := by
    have := i.isLt
    exact Int.bmod_eq_of_le (by omega) (by omega)
  have hnumber :
      readNumber ((Nat.toDigits 10 i).length + 1) (Nat.toDigits 10 i) = some (i : ℤ) := by
    rw [readNumber, htrim]
    split
    · next heq => exact absurd (hdigits '-' (by rw [heq]; simp)) (by decide)
    · next heq => exact absurd (hdigits '(' (by rw [heq]; simp)) (by decide)
    · rw [readLiteral_toDigits]
      rfl
  rw [readMaybe, hnumber, map_some, hwrap]

/-! ### Walking a reference -/

theorem splitOn_reference (path : List PathStep) (hne : path ≠ []) :
    (['/'].intercalate (path.map fun step => encode step.segment)).splitOn '/'
      = path.map fun step => encode step.segment := by
  refine splitOn_intercalate '/' (fun segment hsegment => ?_) (by simpa using hne)
  obtain ⟨step, -, rfl⟩ := List.mem_map.mp hsegment
  intro hmem
  obtain ⟨c, -, hc⟩ := mem_flatMap.mp hmem
  rw [encodeChar] at hc
  split_ifs at hc with htilde hslash
  · exact absurd hc (by decide)
  · exact absurd hc (by decide)
  · exact hslash (mem_singleton.mp hc).symm

variable {path : List PathStep}

theorem resolveLocalRef_reference (root : Json) (hne : path ≠ []) :
    resolveLocalRef root (reference path)
      = (path.map fun step => decodeSegment (encode step.segment)).foldlM descend root := by
  rw [reference, resolveLocalRef, splitOn_reference path hne, List.map_map]
  rfl

/-- A step whose segment is decoded to itself is taken as it is meant. -/
theorem descend_segment {value below : Json} {step : PathStep}
    (hwalk : step.walk value = some below) :
    descend value step.segment = some below := by
  cases step with
  | key name =>
    cases value with
    | object members => exact hwalk
    | _ => cases hwalk
  | index i =>
    cases value with
    | array elements =>
      rw [PathStep.segment, descend, readMaybe_toDigits, Option.bind_some, if_neg (by omega)]
      exact hwalk
    | _ => cases hwalk

/-- The key of a step has no `~1` in it. -/
def PathStep.Plain (step : PathStep) : Prop := ∀ name, step = .key name → ¬ ['~', '1'] <:+: name

theorem PathStep.Plain.decodeSegment_encode {step : PathStep} (h : step.Plain) :
    decodeSegment (encode step.segment) = step.segment := by
  refine (decodeSegment_encode_eq_iff _).mpr ?_
  cases step with
  | key name => exact h name rfl
  | index i =>
    intro hin
    exact absurd (Json.isDigit_toDigits i '~' (hin.subset (by simp))) (by decide)

theorem foldlM_descend (hplain : ∀ step ∈ path, step.Plain)
    {root value : Json} (hwalk : path.foldlM PathStep.walk root = some value) :
    (path.map fun step => decodeSegment (encode step.segment)).foldlM descend root
      = some value := by
  induction path generalizing root with
  | nil => exact hwalk
  | cons step path ih =>
    rw [foldlM_cons] at hwalk
    obtain ⟨below, hstep, hrest⟩ := bind_eq_some_iff.mp hwalk
    rw [map_cons, foldlM_cons, (hplain step mem_cons_self).decodeSegment_encode,
      descend_segment hstep]
    exact ih (fun step hstep => hplain step (mem_cons_of_mem _ hstep)) hrest

/-- A document that has nothing but the path in it. -/
def document : List PathStep → Json
  | [] => .null
  | .key name :: path => .object [(name, document path)]
  | .index i :: path => .array (List.replicate i .null ++ [document path])

theorem walk_document (step : PathStep) (path : List PathStep) :
    step.walk (document (step :: path)) = some (document path) := by
  cases step with
  | key name | index i => simp [PathStep.walk, document]

theorem foldlM_walk_document (path : List PathStep) :
    path.foldlM PathStep.walk (document path) = some .null := by
  induction path with
  | nil => rfl
  | cons step path ih =>
    rw [foldlM_cons, walk_document]
    exact ih

/-- A key that is not decoded to itself is not found in a document of its path alone. -/
theorem plain_of_foldlM_descend
    (h : (path.map fun step => decodeSegment (encode step.segment)).foldlM descend (document path)
      = some .null) : ∀ step ∈ path, step.Plain := by
  induction path with
  | nil => exact forall_mem_nil _
  | cons step path ih =>
    rw [map_cons, foldlM_cons] at h
    have hplain : step.Plain := by
      rintro name rfl hin
      obtain ⟨below, hstep, -⟩ := bind_eq_some_iff.mp h
      have hne : (decodeSegment (encode name) == name) = false :=
        beq_false_of_ne fun heq => (decodeSegment_encode_eq_iff name).mp heq hin
      simp [PathStep.segment, document, descend, lookup_cons, hne] at hstep
    rw [hplain.decodeSegment_encode, descend_segment (walk_document step path)] at h
    exact forall_mem_cons.mpr ⟨hplain, ih h⟩

/-- A reference leads where its path leads, in every document, just if the path is not empty and no
key on it has `~1` in it. -/
theorem resolves_iff (path : List PathStep) :
    Resolves path ↔ path ≠ [] ∧ ∀ name, .key name ∈ path → ¬ ['~', '1'] <:+: name := by
  constructor
  · intro h
    have hroot := h (document path) .null (foldlM_walk_document path)
    have hne : path ≠ [] := by
      rintro rfl
      exact absurd hroot (by simp [reference, resolveLocalRef, document, descend])
    rw [resolveLocalRef_reference _ hne] at hroot
    exact ⟨hne, fun name hmem => plain_of_foldlM_descend hroot _ hmem name rfl⟩
  · rintro ⟨hne, hplain⟩ root value hwalk
    rw [resolveLocalRef_reference _ hne]
    exact foldlM_descend (fun step hstep name hname => hplain name (hname ▸ hstep)) hwalk

/-- The member `~1` of an object is not reached. -/
theorem not_resolves_escape : ¬ ∀ path : List PathStep, Resolves path := by
  intro h
  have hroot := h [.key ['~', '1']] (.object [(['~', '1'], .bool true)]) (.bool true) (by
    simp [PathStep.walk])
  exact absurd hroot (by
    rw [resolveLocalRef_reference _ (cons_ne_nil _ _)]
    simp [PathStep.segment, encode, encodeChar, decodeSegment, replace, replaceFrom, descend,
      lookup_cons])

end SchemaRefs

end HaskellAgent
