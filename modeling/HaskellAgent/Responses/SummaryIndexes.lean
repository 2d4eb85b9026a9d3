import HaskellAgent.Lib.Machine
import HaskellAgent.Responses.Interleaving

/-!
# Summary indexes of a stream

A provider numbers the parts of a reasoning summary, and assembly reads the part at such an index
off the padded summary.  The padding reaches every index from zero on, but nothing checks that an
index is not negative; at `maxBound` the length of the padding overflows.  A part read at such an
index fails when it is evaluated, possibly long after its event: chunks are buffered under their
index until the item is finished or the response is put together.
-/

open List Option FinMap

namespace HaskellAgent.Responses

open Machine

variable {π : Type}

/-! ### Results without failing parts -/

/-- No part of the item's summary fails. -/
def ResponseItem.Defined : ResponseItem π → Prop
  | .reasoningItemValue reasoning => none ∉ reasoning.summary
  | _ => True

def Response.Defined (response : Response π) : Prop := ∀ item ∈ response.output, item.Defined

structure StreamAssemblyState.Defined (state : StreamAssemblyState π) : Prop where
  lifecycle : ∀ response ∈ state.lifecycleResponse, response.Defined
  slots : ∀ index progress, state.outputItems.outputSlots.lookup index = some progress →
    progress.itemValue.Defined

/-- A result that can be evaluated; an error carries no items of the slots. -/
def ResultDefined {η : Type} : Except η (Response π) → Prop
  | .ok response => response.Defined
  | .error _ => True

def StreamAssemblyStep.Defined {η : Type} : StreamAssemblyStep π η → Prop
  | .streamContinue state => state.Defined
  | .streamFinished result => ResultDefined result

/-! ### The events of the decoder -/

def eventResponse : ResponseStreamEvent π → Option (Response π)
  | .responseCreatedEvent responseValue _ => some responseValue
  | .responseInProgressEvent responseValue _ => some responseValue
  | .responseCompletedEvent responseValue _ => some responseValue
  | .responseDoneEvent responseValue _ => some responseValue
  | .responseFailedEvent responseValue _ => some responseValue
  | .responseIncompleteEvent responseValue _ => some responseValue
  | .responseQueuedEvent responseValue _ => some responseValue
  | _ => none

def eventItem : ResponseStreamEvent π → Option (ResponseItem π)
  | .responseOutputItemAddedEvent item _ _ => some item
  | .responseOutputItemDoneEvent item _ _ => some item
  | _ => none

def eventSummaryIndex : ResponseStreamEvent π → Option ℤ
  | .responseReasoningSummaryTextDoneEvent _ _ summaryIndex _ _ => summaryIndex
  | .otherResponseStreamEvent _ _ _ _ _ summaryIndex _ => summaryIndex
  | _ => none

/-- An event of the decoder: the summaries in it have been decoded, and its summary index is any
machine integer. -/
structure DecodedEvent (π : Type) where
  event : ResponseStreamEvent π
  response : ∀ response ∈ eventResponse event, response.Defined
  item : ∀ item ∈ eventItem event, item.Defined
  summaryIndex : ∀ index ∈ eventSummaryIndex event, -2 ^ 63 ≤ index ∧ index ≤ maxBound

/-! ### What is safe -/

/-- The index can be read off the summary once it is padded. -/
def Fits (index : ℤ) (summary : List (Option ReasoningSummaryPart)) : Prop :=
  0 ≤ index ∧ (index < maxBound ∨ summary ≠ [])

/-- **The part fails once the chunks of the slot are materialized.**  One part fails at the front
for each chunk under a negative index; a chunk under the greatest index repeats these behind itself,
and fails itself where there is no part before it. -/
def FailsAt (progress : ItemProgress π) (i : ℕ) : Prop :=
  match progress.itemValue with
  | .reasoningItemValue reasoning =>
    let keys := progress.reasoningTextChunks.keys
    let negative := keys.countP (· < 0)
    i < negative ∨ ((maxBound : ℤ) ∈ keys ∧ maxBound < i ∧ i ≤ maxBound + negative) ∨
      (keys = [(maxBound : ℤ)] ∧ reasoning.summary = [] ∧ i = 0)
  | _ => False

/-- A finished summary has a type and a text of its own for a part. -/
def Covers (summary : List (Option ReasoningSummaryPart)) (i : ℕ) : Prop :=
  ∃ part, summary[i]? = some (some part) ∧ part.partType ≠ [] ∧ (nonEmpty part.text).isSome

/-- The slot that an item event names. -/
def itemSlot (explicitIndex : Option ℤ) (done : Bool) (item : ResponseItem π)
    (state : StreamAssemblyState π) : Option (ItemProgress π) :=
  state.outputItems.outputSlots.lookup
    ((explicitIndex <|> findItemIndex item state <|>
      if done then findPendingIndex state else none).getD (nextOutputIndex state.outputItems))

/-- The slot that a progress event names. -/
def progressSlot (explicitIndex : Option ℤ) (identities : List (Option ItemIdentity))
    (state : StreamAssemblyState π) : Option (ItemProgress π) :=
  (explicitIndex <|> findIdentityIndex identities state).bind state.outputItems.outputSlots.lookup

/-- The text of a part is set at an index that can be read. -/
def SafeText (streamItemId : Option Text) (index : ℤ) (progress : ItemProgress π) : Prop :=
  match progress.itemValue with
  | .reasoningItemValue reasoning => Fits index reasoning.summary
  -- an item of another kind is left alone, or becomes a summary with this part
  | _ => streamItemId = none ∨ Fits index []

/-- **The event reads no summary out of bounds.** -/
def SafeEvent (state : StreamAssemblyState π) : ResponseStreamEvent π → Prop
  | .responseOutputItemDoneEvent (.reasoningItemValue reasoning) outputIndex _ =>
    ∀ progress ∈ itemSlot outputIndex true (.reasoningItemValue reasoning) state,
      ∀ i, FailsAt progress i → Covers reasoning.summary i
  | .responseReasoningSummaryTextDoneEvent streamItemId streamOutputIndex (some index) (some _) _ =>
    ∀ progress ∈ progressSlot streamOutputIndex
        [streamItemIdentity "reasoning".toList streamItemId] state,
      SafeText streamItemId index progress
  | _ => True

/-- **A terminal event materializes no failing part**: no slot has one, or the response has no id
and is not put together. -/
def SafeFinish (state : StreamAssemblyState π) (event : ResponseStreamEvent π) : Prop :=
  ∀ terminal ∈ terminalResponse event,
    (terminal.responseId = [] ∧ ∀ response ∈ state.lifecycleResponse, response.responseId = []) ∨
    ∀ index progress, state.outputItems.outputSlots.lookup index = some progress →
      ∀ i, ¬ FailsAt progress i

/-- The terminal events whose response is put together. -/
def finishes (incompleteAsFailure : Bool) : ResponseStreamEvent π → Bool
  | .responseCompletedEvent _ _ => true
  | .responseDoneEvent _ _ => true
  | .responseIncompleteEvent _ _ => !incompleteAsFailure
  | _ => false

def SafeStep {η : Type} (config : StreamAssemblyConfig π η) (state : StreamAssemblyState π)
    (event : ResponseStreamEvent π) : Prop :=
  SafeEvent state event ∧
    (finishes config.incompleteAsFailure event = true → SafeFinish state event)

/-! ### Updating a part -/

theorem wrapInt_of_range {i : ℤ} (hl : -2 ^ 63 ≤ i) (hu : i < 2 ^ 63) : wrapInt i = i := by
  unfold wrapInt
  apply Int.bmod_eq_of_le <;> omega

variable {index : ℤ} {update : ReasoningSummaryPart → ReasoningSummaryPart}
  {values : List (Option ReasoningSummaryPart)}

def emptyPart : ReasoningSummaryPart := ⟨"summary_text".toList, none⟩

/-- The summary with the parts filled in up to an index. -/
def padded (index : ℤ) (values : List (Option ReasoningSummaryPart)) :
    List (Option ReasoningSummaryPart) :=
  values ++ List.replicate (max 0 (wrapInt (wrapInt (index + 1) - values.length))).toNat
    (some emptyPart)

theorem updateAt_eq : updateAt index update values =
    (padded index values).take index.toNat ++
      [(elementAt (padded index values) index).map update] ++
      (padded index values).drop (wrapInt (index + 1)).toNat := rfl

/-- What is filled in does not fail. -/
theorem getElem?_padded_eq_none {i : ℕ} :
    (padded index values)[i]? = some none ↔ values[i]? = some none := by
  rw [padded, List.getElem?_append]
  split
  · rfl
  · next hge =>
    rw [List.getElem?_eq_none (Nat.le_of_not_lt hge)]
    simp [List.getElem?_replicate]

/-- Below zero the failing part is put before the summary. -/
theorem updateAt_negative (h : index < 0) (hl : -2 ^ 63 ≤ index) :
    updateAt index update values = none :: padded index values := by
  have hnext : (wrapInt (index + 1)).toNat = 0 := by
    rw [wrapInt_of_range (by omega) (by omega)]
    omega
  have hindex : index.toNat = 0 := by omega
  rw [updateAt_eq, hnext, hindex, elementAt, if_pos h]
  rfl

/-- From zero on, the padding reaches the index. -/
theorem lt_length_padded (h : 0 ≤ index) (hu : index < maxBound) :
    index.toNat < (padded index values).length := by
  rw [padded, length_append, length_replicate]
  unfold maxBound at hu
  have hnext : wrapInt (index + 1) = index + 1 := wrapInt_of_range (by omega) (by omega)
  rw [hnext]
  rcases Nat.lt_or_ge index.toNat values.length with hlt | hge
  · omega
  · rw [wrapInt_of_range (by omega) (by omega)]
    omega

theorem elementAt_of_lt {l : List (Option ReasoningSummaryPart)} (h : 0 ≤ index)
    (hl : index.toNat < l.length) : elementAt l index = l[index.toNat] := by
  rw [elementAt, if_neg (by omega), List.getElem?_eq_getElem hl]
  rfl

/-- **From zero on the part is updated in place.** -/
theorem updateAt_of_lt (h : 0 ≤ index) (hu : index < maxBound) :
    updateAt index update values =
      (padded index values).modify index.toNat (Option.map update) := by
  have hl : index.toNat < (padded index values).length := lt_length_padded h hu
  have hnext : (wrapInt (index + 1)).toNat = index.toNat + 1 := by
    unfold maxBound at hu
    rw [wrapInt_of_range (by omega) (by omega)]
    omega
  rw [updateAt_eq, hnext, elementAt_of_lt h hl, modify_eq_take_cons_drop hl]
  simp

theorem wrapInt_maxBound_succ : wrapInt ((maxBound : ℤ) + 1) = -2 ^ 63 := by decide

/-- At the greatest index the padding overflows.  It still reaches the index if there is a part. -/
theorem lt_length_padded_maxBound (hne : values ≠ []) :
    maxBound < (padded maxBound values).length := by
  have hpos := length_pos_iff.mpr hne
  rw [padded, length_append, length_replicate, wrapInt_maxBound_succ]
  unfold maxBound
  rcases Nat.lt_or_ge values.length (2 ^ 63) with hlt | hge
  · -- the length wraps around to what is missing
    have hwrap : wrapInt (-2 ^ 63 - (values.length : ℤ)) = 2 ^ 63 - values.length := by
      have hsum : -2 ^ 63 - (values.length : ℤ) + (2 ^ 64 : ℕ) = 2 ^ 63 - values.length := by
        omega
      rw [wrapInt, ← Int.add_bmod_right, hsum]
      apply Int.bmod_eq_of_le <;> omega
    rw [hwrap]
    omega
  · omega

/-- The updated part is followed by the whole summary again. -/
theorem updateAt_maxBound (hne : values ≠ []) :
    updateAt maxBound update values =
      (padded maxBound values).take maxBound ++
        ((padded maxBound values).get ⟨maxBound, lt_length_padded_maxBound hne⟩).map update ::
          padded maxBound values := by
  have hl := lt_length_padded_maxBound hne
  rw [updateAt_eq, wrapInt_maxBound_succ, elementAt_of_lt (by omega) (by simpa using hl)]
  simp

theorem updateAt_maxBound_nil : updateAt maxBound update [] = [none] := by
  have hpadded : padded maxBound [] = [] := by
    rw [padded, wrapInt_maxBound_succ]
    decide
  rw [updateAt_eq, hpadded]
  rfl

/-! ### Which parts fail -/

/-- The parts that fail are the first ones. -/
def FailsFirst (count : ℕ) (values : List (Option ReasoningSummaryPart)) : Prop :=
  ∀ i, values[i]? = some none ↔ i < count

variable {count : ℕ}

theorem FailsFirst.negative (h : FailsFirst count values) (hneg : index < 0)
    (hl : -2 ^ 63 ≤ index) : FailsFirst (count + 1) (updateAt index update values) := by
  intro i
  rw [updateAt_negative hneg hl]
  cases i with
  | zero => simp
  | succ i => rw [List.getElem?_cons_succ, getElem?_padded_eq_none, h i]; omega

theorem updateAt_eq_none_of_lt (h : 0 ≤ index) (hu : index < maxBound) {i : ℕ} :
    (updateAt index update values)[i]? = some none ↔ values[i]? = some none := by
  rw [updateAt_of_lt h hu, List.getElem?_modify, ← getElem?_padded_eq_none]
  rcases (padded index values)[i]? with none | part
  · simp
  · by_cases hi : index.toNat = i <;> simp [hi]

theorem updateAt_ne_nil : updateAt index update values ≠ [] := by
  simp [updateAt_eq]

/-- The parts that fail are repeated behind the greatest index. -/
theorem FailsFirst.greatest (h : FailsFirst count values) (hne : values ≠ []) (i : ℕ) :
    (updateAt maxBound update values)[i]? = some none ↔
      i < count ∨ maxBound < i ∧ i ≤ maxBound + count := by
  have hl := lt_length_padded_maxBound hne
  have hpadded : ∀ j : ℕ, (padded maxBound values)[j]? = some none ↔ j < count :=
    fun j => getElem?_padded_eq_none.trans (h j)
  rw [updateAt_maxBound hne, List.getElem?_append, length_take, Nat.min_eq_left hl.le]
  split
  · next hlt =>
    rw [List.getElem?_take_of_lt hlt, hpadded]
    omega
  · next hge =>
    rcases Nat.eq_or_lt_of_le (Nat.le_of_not_lt hge) with heq | hgt
    · -- the updated part itself
      have hlast := hpadded maxBound
      rw [List.getElem?_eq_getElem hl, some.injEq] at hlast
      rw [← heq, Nat.sub_self, List.getElem?_cons_zero, some.injEq, map_eq_none_iff,
        get_eq_getElem, hlast]
      omega
    · obtain ⟨j, rfl⟩ := Nat.exists_eq_add_of_lt hgt
      have hindex : maxBound + j + 1 - maxBound = j + 1 := by omega
      rw [hindex, List.getElem?_cons_succ, hpadded]
      omega

/-! ### Materialization -/

/-- The summary with the chunks under the given indexes. -/
def updateAll (text : ℤ → ReasoningSummaryPart → ReasoningSummaryPart) (keys : List ℤ)
    (values : List (Option ReasoningSummaryPart)) : List (Option ReasoningSummaryPart) :=
  keys.foldl (fun current index => updateAt index (text index) current) values

variable {keys : List ℤ}

/-- **The parts that fail after chunks were materialized in ascending order.** -/
theorem updateAll_fails (text : ℤ → ReasoningSummaryPart → ReasoningSummaryPart)
    (hsorted : keys.Pairwise (· < ·))
    (hkeys : ∀ index ∈ keys, -2 ^ 63 ≤ index ∧ index ≤ maxBound) (h : FailsFirst count values)
    (i : ℕ) :
    (updateAll text keys values)[i]? = some none ↔
      i < count + keys.countP (· < 0) ∨
      ((maxBound : ℤ) ∈ keys ∧ maxBound < i ∧ i ≤ maxBound + (count + keys.countP (· < 0))) ∨
      (keys = [(maxBound : ℤ)] ∧ values = [] ∧ i = 0) := by
  induction keys generalizing count values with
  | nil => simp [updateAll, h i]
  | cons index keys ih =>
    have hrest := (pairwise_cons.mp hsorted).2
    have hbounds : ∀ other ∈ keys, -2 ^ 63 ≤ other ∧ other ≤ maxBound :=
      fun other hmem => hkeys other (mem_cons_of_mem _ hmem)
    obtain ⟨hl, hu⟩ := hkeys index mem_cons_self
    have hfold : updateAll text (index :: keys) values =
        updateAll text keys (updateAt index (text index) values) := rfl
    rw [hfold]
    rcases lt_trichotomy index maxBound with hlt | heq | hgt
    · have hnot : index ≠ maxBound := hlt.ne
      rcases lt_or_ge index 0 with hneg | hnonneg
      · rw [ih hrest hbounds (h.negative hneg hl)]
        simp only [hneg, updateAt_ne_nil, hnot, hnot.symm, countP_cons, mem_cons,
          List.cons.injEq, decide_true, if_true, false_or, false_and, and_false, or_false]
        rw [show count + 1 + keys.countP (· < 0) = count + (keys.countP (· < 0) + 1) by omega]
      · have hsame : FailsFirst count (updateAt index (text index) values) :=
          fun j => (updateAt_eq_none_of_lt hnonneg hlt).trans (h j)
        rw [ih hrest hbounds hsame]
        simp [hnonneg.not_gt, updateAt_ne_nil, hnot, hnot.symm]
    · -- the greatest index is the last one
      have hnone : keys = [] := by
        rw [eq_nil_iff_forall_not_mem]
        intro other hmem
        have hgt := (pairwise_cons.mp hsorted).1 other hmem
        have hle := (hbounds other hmem).2
        omega
      subst hnone heq
      have hzero : [(maxBound : ℤ)].countP (· < 0) = 0 := by decide
      rw [hzero, Nat.add_zero]
      change (updateAt maxBound (text maxBound) values)[i]? = some none ↔ _
      by_cases hvalues : values = []
      · subst hvalues
        have hcount : count = 0 := by
          have hempty := h 0
          simp at hempty
          omega
        rw [updateAt_maxBound_nil, hcount]
        cases i <;> simp
      · rw [h.greatest hvalues]
        simp [hvalues]
    · omega

/-- The text of a part with the chunks of a slot under its index. -/
def chunkText (progress : ItemProgress π) (index : ℤ) (part : ReasoningSummaryPart) :
    ReasoningSummaryPart :=
  setReasoningPartText (some (part.text.getD [] ++
    textBufferToText ((progress.reasoningTextChunks.lookup index).getD emptyTextBuffer))) part

variable {slot : Option (ItemProgress π)} {item : ResponseItem π} {reasoning : ReasoningItem π}
  {explicitIndex : Option ℤ} {terminal : Response π}

/-- Materializing the chunks of a reasoning item updates its summary under each of them. -/
theorem materialize_reasoning (progress : ItemProgress π)
    (h : progress.itemValue = .reasoningItemValue reasoning) :
    materializeItemProgress progress = .reasoningItemValue (setReasoningSummary
      (updateAll (chunkText progress) progress.reasoningTextChunks.keys reasoning.summary)
        reasoning) := by
  have hfold : ∀ (entries : List (ℤ × TextBuffer)) (current : ReasoningItem π),
      (∀ entry ∈ entries, progress.reasoningTextChunks.lookup entry.1 = some entry.2) →
      entries.foldl (fun current entry => mapReasoning none entry.1
        (fun part => setReasoningPartText
          (some (part.text.getD [] ++ textBufferToText entry.2)) part) current)
          (.reasoningItemValue current) =
      .reasoningItemValue (setReasoningSummary
        (updateAll (chunkText progress) (entries.map Prod.fst) current.summary) current) := by
    intro entries
    induction entries with
    | nil => exact fun _ _ => rfl
    | cons entry entries ih =>
      intro current hentries
      have htext : chunkText progress entry.1 = fun part => setReasoningPartText
          (some (part.text.getD [] ++ textBufferToText entry.2)) part := by
        funext part
        rw [chunkText, hentries entry mem_cons_self]
        rfl
      have hrest := ih (setReasoningSummary
        (updateAt entry.1 (chunkText progress entry.1) current.summary) current)
        fun other hmem => hentries other (mem_cons_of_mem _ hmem)
      rw [foldl_cons, mapReasoning, ← htext]
      exact hrest
  have hvalue : materializeCustom progress (materializeFunction progress progress.itemValue) =
      .reasoningItemValue reasoning := by
    rw [h, materializeCustom, materializeFunction]
    cases progress.functionArgumentChunks <;> cases progress.customInputChunks <;> rfl
  rw [materializeItemProgress, hvalue, materializeReasoning, foldlWithKey_eq,
    ← map_fst_toList]
  exact hfold _ reasoning fun entry hmem => mem_toList.mp hmem

/-- Chunks of a summary leave items of other kinds alone. -/
theorem materializeReasoning_other (progress : ItemProgress π)
    (h : ∀ reasoning, item ≠ .reasoningItemValue reasoning) :
    materializeReasoning progress item = item := by
  have hmap : ∀ (index : ℤ) (update : ReasoningSummaryPart → ReasoningSummaryPart),
      mapReasoning none index update item = item := by
    intro index update
    cases item <;> first | rfl | exact absurd rfl (h _)
  rw [materializeReasoning, foldlWithKey_eq]
  induction progress.reasoningTextChunks.toList with
  | nil => rfl
  | cons entry entries ih => rw [foldl_cons, hmap, ih]

theorem materializeFunction_other (progress : ItemProgress π)
    (h : ∀ reasoning, item ≠ .reasoningItemValue reasoning) (reasoning : ReasoningItem π) :
    materializeFunction progress item ≠ .reasoningItemValue reasoning := by
  unfold materializeFunction
  cases progress.functionArgumentChunks with
  | none => exact h reasoning
  | some chunks => cases item <;> first | exact absurd rfl (h _) | simp [mapFunctionCall]

theorem materializeCustom_other (progress : ItemProgress π)
    (h : ∀ reasoning, item ≠ .reasoningItemValue reasoning) (reasoning : ReasoningItem π) :
    materializeCustom progress item ≠ .reasoningItemValue reasoning := by
  unfold materializeCustom
  cases progress.customInputChunks with
  | none => exact h reasoning
  | some chunks => cases item <;> first | exact absurd rfl (h _) | simp [mapCustomCall]

/-- An item of another kind keeps its kind. -/
theorem materialize_other (progress : ItemProgress π)
    (h : ∀ reasoning, progress.itemValue ≠ .reasoningItemValue reasoning)
    (reasoning : ReasoningItem π) :
    materializeItemProgress progress ≠ .reasoningItemValue reasoning := by
  have hvalue := materializeCustom_other progress (materializeFunction_other progress h)
  rw [materializeItemProgress, materializeReasoning_other progress hvalue]
  exact hvalue reasoning

/-! ### Slots -/

/-- What holds of a slot whose value can be evaluated. -/
structure SlotSound (progress : ItemProgress π) : Prop where
  defined : progress.itemValue.Defined
  chunks : ∀ index ∈ progress.reasoningTextChunks.keys, -2 ^ 63 ≤ index ∧ index ≤ maxBound

variable {progress : ItemProgress π}

theorem failsFirst_of_defined (h : none ∉ values) : FailsFirst 0 values := by
  intro i
  refine ⟨fun hi => absurd (mem_of_getElem? hi) h, fun hi => absurd hi (Nat.not_lt_zero i)⟩

/-- **The parts that fail when a slot is materialized.** -/
theorem materializedReasoningSummary_fails (h : SlotSound progress) (i : ℕ) :
    (materializedReasoningSummary progress)[i]? = some none ↔ FailsAt progress i := by
  unfold materializedReasoningSummary FailsAt
  cases hitem : progress.itemValue with
  | reasoningItemValue reasoning =>
    have hdefined := h.defined
    rw [hitem] at hdefined
    rw [materialize_reasoning progress hitem]
    have hfails := updateAll_fails (chunkText progress) progress.reasoningTextChunks.sorted h.chunks
      (failsFirst_of_defined hdefined) i
    simpa [setReasoningSummary] using hfails
  | _ =>
    have hother := materialize_other progress (by rw [hitem]; simp)
    split
    · next reasoning heq => exact absurd heq (hother reasoning)
    · simp

/-- **A slot can be materialized exactly when no chunk of it fails.** -/
theorem defined_materialize_iff (h : SlotSound progress) :
    (materializeItemProgress progress).Defined ↔ ∀ i, ¬ FailsAt progress i := by
  have hfails := materializedReasoningSummary_fails h
  unfold materializedReasoningSummary at hfails
  cases hitem : materializeItemProgress progress with
  | reasoningItemValue reasoning =>
    simp only [hitem] at hfails
    simp only [ResponseItem.Defined, ← hfails, mem_iff_getElem?, not_exists]
  | _ =>
    simp only [hitem] at hfails
    simp [ResponseItem.Defined, ← hfails]

/-! ### Finished summaries -/

/-- A newer part reads the older one unless it has a type and a text. -/
theorem mergeSummaryPart_eq_none {previous : Option ReasoningSummaryPart}
    {newer : ReasoningSummaryPart} :
    mergeSummaryPart previous (some newer) = none ↔
      previous = none ∧ ¬ (newer.partType ≠ [] ∧ (nonEmpty newer.text).isSome) := by
  obtain ⟨partType, text⟩ := newer
  cases previous with
  | some older | none =>
    cases partType <;> cases htext : nonEmpty text <;> simp [mergeSummaryPart, htext]

/-- A part of a merged summary fails where the older part fails and the newer one does not say
everything. -/
theorem mergeReasoningSummary_fails {previous next : List (Option ReasoningSummaryPart)}
    (hnext : none ∉ next) (i : ℕ) :
    (mergeReasoningSummary previous next)[i]? = some none ↔
      previous[i]? = some none ∧ ¬ Covers next i := by
  induction previous generalizing next i with
  | nil =>
    have hnone : (mergeReasoningSummary [] next)[i]? ≠ some none := by
      cases next <;> exact fun h => hnext (mem_of_getElem? h)
    simp [hnone]
  | cons part previous ih =>
    cases next with
    | nil => simp [mergeReasoningSummary, Covers]
    | cons newer next =>
      rw [mem_cons, not_or] at hnext
      cases i with
      | succ i =>
        have hcovers : Covers (newer :: next) (i + 1) ↔ Covers next i := by simp [Covers]
        rw [mergeReasoningSummary, List.getElem?_cons_succ, List.getElem?_cons_succ, hcovers]
        exact ih hnext.2 i
      | zero =>
        obtain ⟨newer, rfl⟩ := ne_none_iff_exists'.mp (Ne.symm hnext.1)
        have hcovers : Covers (some newer :: next) 0 ↔
            newer.partType ≠ [] ∧ (nonEmpty newer.text).isSome := by simp [Covers]
        rw [mergeReasoningSummary, List.getElem?_cons_zero, List.getElem?_cons_zero, hcovers,
          some.injEq, some.injEq, mergeSummaryPart_eq_none]

/-- **A finished item can be evaluated exactly when it covers the failing parts of its slot.** -/
theorem defined_preserve_iff (h : SlotSound progress)
    (hitem : (ResponseItem.reasoningItemValue reasoning).Defined) :
    (preserveBufferedProgress progress (.reasoningItemValue reasoning)).Defined ↔
      ∀ i, FailsAt progress i → Covers reasoning.summary i := by
  have hfails := materializedReasoningSummary_fails h
  simp only [preserveBufferedProgress]
  split
  · next hempty =>
    -- nothing is buffered, so nothing fails
    rw [List.isEmpty_iff] at hempty
    have hnone : ∀ i, ¬ FailsAt progress i := by
      intro i
      unfold FailsAt
      split <;> simp [hempty]
    exact ⟨fun _ i hi => absurd hi (hnone i), fun _ => hitem⟩
  · simp only [ResponseItem.Defined, setReasoningSummary, mem_iff_getElem?,
      mergeReasoningSummary_fails hitem, hfails, not_exists, not_and, not_not]

theorem defined_mergeResponseItem {old new : ResponseItem π} :
    (mergeResponseItem old new).Defined ↔ new.Defined := by
  unfold mergeResponseItem
  split <;> simp [ResponseItem.Defined]

variable {item : ResponseItem π}

/-- A finished item of another kind has no summary to evaluate. -/
theorem defined_preserve_other (h : ∀ reasoning, item ≠ .reasoningItemValue reasoning) :
    (preserveBufferedProgress progress item).Defined := by
  cases item with
  | reasoningItemValue reasoning => exact absurd rfl (h reasoning)
  | functionCallItem call | customToolCallItem call =>
    simp only [preserveBufferedProgress]
    split <;> trivial
  | _ => trivial

/-! ### Setting the text of a part -/

/-- **A part can be set exactly where the index fits.** -/
theorem defined_updateAt_iff (h : none ∉ values) (hl : -2 ^ 63 ≤ index) (hu : index ≤ maxBound) :
    none ∉ updateAt index update values ↔ Fits index values := by
  have hkeys : ∀ other ∈ [index], -2 ^ 63 ≤ other ∧ other ≤ maxBound := by
    intro other hmem
    rw [mem_singleton.mp hmem]
    exact ⟨hl, hu⟩
  have hfails := updateAll_fails (fun _ => update) (pairwise_singleton _ _) hkeys
    (failsFirst_of_defined h)
  change none ∉ updateAll (fun _ => update) [index] values ↔ _
  simp only [mem_iff_getElem?, hfails, Fits]
  rcases lt_or_ge index 0 with hneg | hnonneg
  · -- the first part fails
    refine iff_of_false (fun hnone => hnone ⟨0, .inl ?_⟩) (fun hfits => ?_)
    · simp [hneg]
    · omega
  · have hcount : [index].countP (· < 0) = 0 := by simp [hnonneg]
    simp only [hcount, Nat.add_zero, Nat.not_lt_zero, false_or, List.cons.injEq, and_true]
    constructor
    · intro hnone
      refine ⟨hnonneg, ?_⟩
      by_contra hnot
      rw [not_or, not_not] at hnot
      exact hnone ⟨0, .inr ⟨by omega, hnot.2, rfl⟩⟩
    · rintro ⟨-, hfits⟩ ⟨i, ⟨-, hgt, hle⟩ | ⟨heq, hnil, -⟩⟩
      · omega
      · rcases hfits with hlt | hne
        · omega
        · exact hne hnil

theorem defined_reasoningSummaryDone_iff {value : Text} {streamItemId : Option Text}
    (h : progress.itemValue.Defined) (hl : -2 ^ 63 ≤ index) (hu : index ≤ maxBound) :
    (reasoningSummaryDone value streamItemId index progress).itemValue.Defined ↔
      SafeText streamItemId index progress := by
  unfold reasoningSummaryDone SafeText
  cases hitem : progress.itemValue with
  | reasoningItemValue reasoning =>
    rw [hitem] at h
    exact defined_updateAt_iff h hl hu
  | _ =>
    cases streamItemId with
    | none => simp [mapReasoning, ResponseItem.Defined]
    | some identifier =>
      simp only [mapReasoning, ResponseItem.Defined, reduceCtorEq, false_or]
      exact defined_updateAt_iff not_mem_nil hl hu

/-! ### The effect of an event -/

/-- What holds of a state that can be evaluated. -/
structure StateSound (state : StreamAssemblyState π) : Prop where
  lifecycle : ∀ response ∈ state.lifecycleResponse, response.Defined
  slots : ∀ index progress, state.outputItems.outputSlots.lookup index = some progress →
    SlotSound progress

theorem StateSound.defined {state : StreamAssemblyState π} (h : StateSound state) :
    state.Defined where
  lifecycle := h.lifecycle
  slots := fun index progress hslot => (h.slots index progress hslot).defined

/-- The indexes of buffered chunks are machine integers. -/
def ChunksBounded (progress : ItemProgress π) : Prop :=
  ∀ index ∈ progress.reasoningTextChunks.keys, -2 ^ 63 ≤ index ∧ index ≤ maxBound

/-- The state with another value in a slot. -/
def withSlot (slot : ℤ) (new : ItemProgress π) (state : StreamAssemblyState π) :
    StreamAssemblyState π :=
  { state with outputItems := setOutputSlot slot new state.outputItems }

variable {state : StreamAssemblyState π}

/-- Setting a slot replaces what can be evaluated of it. -/
theorem defined_withSlot_iff (h : StateSound state) (slot : ℤ) (new : ItemProgress π) :
    (withSlot slot new state).Defined ↔ new.itemValue.Defined := by
  constructor
  · intro hdefined
    exact hdefined.slots slot new (lookup_insert_self ..)
  · intro hnew
    refine ⟨h.lifecycle, ?_⟩
    intro other progress hslot
    rw [withSlot, setOutputSlot, lookup_insert] at hslot
    split at hslot
    · cases hslot
      exact hnew
    · exact (h.slots other progress hslot).defined

theorem sound_withSlot (h : StateSound state) {slot : ℤ} {new : ItemProgress π}
    (hnew : SlotSound new) : StateSound (withSlot slot new state) := by
  refine ⟨h.lifecycle, ?_⟩
  intro other progress hslot
  rw [withSlot, setOutputSlot, lookup_insert] at hslot
  split at hslot
  · cases hslot
    exact hnew
  · exact h.slots other progress hslot

theorem sound_itemSlot (h : StateSound state) {done : Bool}
    : ∀ old ∈ itemSlot explicitIndex done item state, SlotSound old :=
  fun old hmem => h.slots _ old hmem

theorem sound_progressSlot (h : StateSound state)
    {identities : List (Option ItemIdentity)} :
    ∀ progress ∈ progressSlot explicitIndex identities state, SlotSound progress := by
  intro progress hmem
  obtain ⟨slot, -, hslot⟩ := bind_eq_some_iff.mp hmem
  exact h.slots slot progress hslot

theorem updateItem_eq (state : StreamAssemblyState π) (explicitIndex : Option ℤ) (done : Bool)
    (item : ResponseItem π) :
    ∃ slot, updateItem explicitIndex done item state =
      withSlot slot (itemProgress done item (itemSlot explicitIndex done item state)) state :=
  ⟨_, rfl⟩

/-- A progress event changes the slot it names, if there is one. -/
theorem updateResolvedProgress_eq (state : StreamAssemblyState π) (explicitIndex : Option ℤ)
    (identities : List (Option ItemIdentity)) (update : ItemProgress π → ItemProgress π) :
    (progressSlot explicitIndex identities state = none ∧
      updateResolvedProgress explicitIndex identities update state = state) ∨
    ∃ slot progress, progressSlot explicitIndex identities state = some progress ∧
      state.outputItems.outputSlots.lookup slot = some progress ∧
      updateResolvedProgress explicitIndex identities update state =
        withSlot slot (update progress) state := by
  unfold progressSlot updateResolvedProgress
  cases hslot : (explicitIndex <|> findIdentityIndex identities state) with
  | none => exact .inl ⟨rfl, rfl⟩
  | some slot =>
    cases hlookup : state.outputItems.outputSlots.lookup slot with
    | none => exact .inl ⟨hlookup, by simp [adjustOutputProgress, hlookup]⟩
    | some progress =>
      refine .inr ⟨slot, progress, hlookup, hlookup, ?_⟩
      simp [adjustOutputProgress, hlookup, withSlot]

/-- **The effect of an item event can be evaluated if the slot's new value can.** -/
theorem defined_updateItem_iff (h : StateSound state) (explicitIndex : Option ℤ) (done : Bool)
    (item : ResponseItem π) :
    (updateItem explicitIndex done item state).Defined ↔
      (itemProgress done item (itemSlot explicitIndex done item state)).itemValue.Defined := by
  obtain ⟨slot, heq⟩ := updateItem_eq state explicitIndex done item
  rw [heq]
  exact defined_withSlot_iff h slot _

theorem defined_updateResolvedProgress_iff (h : StateSound state) (explicitIndex : Option ℤ)
    (identities : List (Option ItemIdentity)) (update : ItemProgress π → ItemProgress π) :
    (updateResolvedProgress explicitIndex identities update state).Defined ↔
      ∀ progress ∈ progressSlot explicitIndex identities state,
        (update progress).itemValue.Defined := by
  rcases updateResolvedProgress_eq state explicitIndex identities update with
    ⟨hnone, heq⟩ | ⟨slot, progress, hsome, -, heq⟩
  · rw [heq, hnone]
    simp [h.defined]
  · rw [heq, hsome, defined_withSlot_iff h]
    simp

theorem defined_mapFunctionCall (h : item.Defined) (itemId : Option Text)
    (update : FunctionCall π → FunctionCall π) : (mapFunctionCall itemId update item).Defined := by
  cases item <;> cases itemId <;> trivial

theorem defined_mapCustomCall (h : item.Defined) (itemId callId : Option Text)
    (update : CustomToolCall π → CustomToolCall π) :
    (mapCustomCall itemId callId update item).Defined := by
  cases item <;> cases itemId <;> cases callId <;> trivial

/-- **A finished item can be evaluated exactly when it covers what fails.** -/
theorem defined_itemDone_iff (hslot : ∀ old ∈ slot, SlotSound old)
    (hitem : (ResponseItem.reasoningItemValue reasoning).Defined) :
    (itemProgress true (.reasoningItemValue reasoning) slot).itemValue.Defined ↔
      ∀ progress ∈ slot, ∀ i, FailsAt progress i → Covers reasoning.summary i := by
  cases slot with
  | none => simpa [itemProgress] using hitem
  | some old =>
    simp only [itemProgress, if_true, defined_mergeResponseItem, mem_def,
      some.injEq, forall_eq']
    exact defined_preserve_iff (hslot old rfl) hitem

theorem defined_itemProgress {done : Bool} (hitem : item.Defined)
    (h : done = false ∨ ∀ reasoning, item ≠ .reasoningItemValue reasoning) :
    (itemProgress done item slot).itemValue.Defined := by
  cases slot with
  | none => exact hitem
  | some old =>
    simp only [itemProgress, defined_mergeResponseItem]
    cases done with
    | false => exact hitem
    | true => exact defined_preserve_other (h.resolve_left (by simp))

theorem defined_mergeLifecycle {response : Response π} (hstate : StateSound state)
    (h : response.Defined) : StateSound (mergeLifecycleResponse response state) := by
  refine ⟨?_, hstate.slots⟩
  intro merged hmerged
  rw [mergeLifecycleResponse, mem_some_iff] at hmerged
  subst hmerged
  have hlifecycle := hstate.lifecycle
  cases hold : state.lifecycleResponse with
  | none => exact h
  | some base =>
    intro item hmem
    simp only [mergeResponseFragment] at hmem
    split at hmem
    · exact hlifecycle base hold item hmem
    · exact h item hmem

/-- **An event is applied to a state that can be evaluated exactly when it is safe.** -/
theorem defined_applyStreamEvent_iff (h : StateSound state) (decoded : DecodedEvent π) :
    (applyStreamEvent state decoded.event).Defined ↔ SafeEvent state decoded.event := by
  obtain ⟨event, hresponse, hitem, hindex⟩ := decoded
  simp only
  cases event with
  | responseCreatedEvent response | responseInProgressEvent response
  | responseQueuedEvent response | responseCompletedEvent response
  | responseDoneEvent response | responseFailedEvent response
  | responseIncompleteEvent response =>
    exact iff_of_true (defined_mergeLifecycle h (hresponse response rfl)).defined trivial
  | responseOutputItemAddedEvent item outputIndex =>
    refine iff_of_true ?_ trivial
    exact (defined_updateItem_iff h outputIndex false item).mpr
      (defined_itemProgress (hitem item rfl) (.inl rfl))
  | responseOutputItemDoneEvent item outputIndex =>
    have hdone := defined_updateItem_iff h outputIndex true item
    cases item with
    | reasoningItemValue reasoning =>
      exact hdone.trans (defined_itemDone_iff (sound_itemSlot h) (hitem _ rfl))
    | _ =>
      refine iff_of_true (hdone.mpr (defined_itemProgress (hitem _ rfl) (.inr ?_))) trivial
      simp
  | responseFunctionCallArgumentsDeltaEvent delta streamItemId outputIndex
  | responseCustomToolInputDeltaEvent delta streamItemId callId outputIndex =>
    refine iff_of_true ?_ trivial
    cases delta with
    | none => exact h.defined
    | some value =>
      exact (defined_updateResolvedProgress_iff h _ _ _).mpr fun progress hmem =>
        (sound_progressSlot h progress hmem).defined
  | responseFunctionCallArgumentsDoneEvent arguments functionName streamItemId outputIndex =>
    refine iff_of_true ?_ trivial
    exact (defined_updateResolvedProgress_iff h _ _ _).mpr fun progress hmem =>
      defined_mapFunctionCall (sound_progressSlot h progress hmem).defined _ _
  | responseCustomToolInputDoneEvent inputText streamItemId callId outputIndex =>
    refine iff_of_true ?_ trivial
    exact (defined_updateResolvedProgress_iff h _ _ _).mpr fun progress hmem =>
      defined_mapCustomCall (sound_progressSlot h progress hmem).defined _ _ _
  | responseReasoningSummaryTextDoneEvent streamItemId outputIndex summaryIndex value =>
    cases summaryIndex with
    | none => exact iff_of_true h.defined trivial
    | some index =>
      cases value with
      | none => exact iff_of_true h.defined trivial
      | some value =>
        obtain ⟨hl, hu⟩ := hindex index rfl
        refine (defined_updateResolvedProgress_iff h _ _ _).trans ?_
        refine forall₂_congr fun progress hmem => ?_
        exact defined_reasoningSummaryDone_iff (sound_progressSlot h progress hmem).defined hl hu
  | otherResponseStreamEvent kind _ delta streamItemId outputIndex summaryIndex =>
    refine iff_of_true ?_ trivial
    cases kind with
    | otherType name => exact h.defined
    | reasoningSummaryTextDelta =>
      cases delta with
      | none => exact h.defined
      | some value =>
        cases summaryIndex with
        | none => exact h.defined
        | some index =>
          exact (defined_updateResolvedProgress_iff h _ _ _).mpr fun progress hmem =>
            (sound_progressSlot h progress hmem).defined
  | _ => exact iff_of_true h.defined trivial

/-! ### Runs -/

theorem chunks_itemProgress {done : Bool}
    (hslot : ∀ old ∈ slot, SlotSound old) : ChunksBounded (itemProgress done item slot) := by
  cases slot with
  | none => exact fun index hmem => absurd hmem not_mem_nil
  | some old =>
    cases done with
    | true => exact fun index hmem => absurd hmem not_mem_nil
    | false => exact (hslot old rfl).chunks

theorem chunks_reasoningSummaryDelta {value : Text} (h : SlotSound progress)
    (hindex : -2 ^ 63 ≤ index ∧ index ≤ maxBound) :
    ChunksBounded (reasoningSummaryDelta value index progress) := by
  intro other hmem
  rw [reasoningSummaryDelta, FinMap.alter] at hmem
  rcases mem_insertKey.mp hmem with rfl | hold
  · exact hindex
  · exact h.chunks other hold

theorem chunks_reasoningSummaryDone {value : Text} {streamItemId : Option Text}
    (h : SlotSound progress) :
    ChunksBounded (reasoningSummaryDone value streamItemId index progress) :=
  fun other hmem => h.chunks other (mem_of_mem_filter hmem)

/-- A state that is reached by a progress event, when its slots keep their bounds. -/
theorem sound_updateResolvedProgress (h : StateSound state)
    {identities : List (Option ItemIdentity)} {update : ItemProgress π → ItemProgress π}
    (hdefined : (updateResolvedProgress explicitIndex identities update state).Defined)
    (hchunks : ∀ progress ∈ progressSlot explicitIndex identities state,
      ChunksBounded (update progress)) :
    StateSound (updateResolvedProgress explicitIndex identities update state) := by
  have hslots := (defined_updateResolvedProgress_iff h _ _ _).mp hdefined
  rcases updateResolvedProgress_eq state explicitIndex identities update with
    ⟨-, heq⟩ | ⟨slot, progress, hsome, -, heq⟩
  · rw [heq]
    exact h
  · rw [heq]
    exact sound_withSlot h ⟨hslots progress hsome, hchunks progress hsome⟩

/-- **A safe event keeps the state sound.** -/
theorem StateSound.apply (h : StateSound state) (decoded : DecodedEvent π)
    (hsafe : SafeEvent state decoded.event) :
    StateSound (applyStreamEvent state decoded.event) := by
  have hdefined := (defined_applyStreamEvent_iff h decoded).mpr hsafe
  obtain ⟨event, hresponse, hitem, hindex⟩ := decoded
  simp only at hdefined ⊢
  cases event with
  | responseCreatedEvent response | responseInProgressEvent response
  | responseQueuedEvent response | responseCompletedEvent response
  | responseDoneEvent response | responseFailedEvent response
  | responseIncompleteEvent response => exact defined_mergeLifecycle h (hresponse response rfl)
  | responseOutputItemAddedEvent item outputIndex | responseOutputItemDoneEvent item outputIndex =>
    refine sound_withSlot h ⟨?_, chunks_itemProgress (sound_itemSlot h)⟩
    exact (defined_updateItem_iff h _ _ _).mp hdefined
  | responseFunctionCallArgumentsDeltaEvent delta | responseCustomToolInputDeltaEvent delta =>
    cases delta with
    | none => exact h
    | some value =>
      exact sound_updateResolvedProgress h hdefined fun progress hmem =>
        (sound_progressSlot h progress hmem).chunks
  | responseFunctionCallArgumentsDoneEvent | responseCustomToolInputDoneEvent =>
    exact sound_updateResolvedProgress h hdefined fun progress hmem =>
      (sound_progressSlot h progress hmem).chunks
  | responseReasoningSummaryTextDoneEvent _ _ summaryIndex value =>
    cases summaryIndex with
    | none => exact h
    | some index =>
      cases value with
      | none => exact h
      | some value =>
        exact sound_updateResolvedProgress h hdefined fun progress hmem =>
          chunks_reasoningSummaryDone (sound_progressSlot h progress hmem)
  | otherResponseStreamEvent kind _ delta _ _ summaryIndex =>
    cases kind with
    | otherType name => exact h
    | reasoningSummaryTextDelta =>
      cases delta with
      | none => exact h
      | some value =>
        cases summaryIndex with
        | none => exact h
        | some index =>
          exact sound_updateResolvedProgress h hdefined fun progress hmem =>
            chunks_reasoningSummaryDelta (sound_progressSlot h progress hmem) (hindex index rfl)
  | _ => exact h

/-! ### Terminal events -/

/-- **The assembled output can be evaluated exactly when no slot has a failing chunk.** -/
theorem defined_assembled_iff (h : StateSound state)
    (hterminal : terminal.Defined) :
    (∀ item ∈ assembledTerminalOutput terminal state, item.Defined) ↔
      ∀ index progress, state.outputItems.outputSlots.lookup index = some progress →
        ∀ i, ¬ FailsAt progress i := by
  have hfinal : ∀ index item, (FinMap.ofList (terminal.output.zipIdx.map
      fun entry => ((entry.2 : ℤ), entry.1))).lookup index = some item → item.Defined := by
    intro index item hlookup
    obtain ⟨entry, hentry, heq⟩ := List.mem_map.mp (mem_of_lookup_ofList hlookup)
    cases heq
    exact hterminal _ (fst_mem_of_mem_zipIdx hentry)
  simp only [assembledTerminalOutput, mem_elems, assembledItems, FinMap.unionWith,
    lookup_map]
  constructor
  · intro hitems index progress hslot
    rw [← defined_materialize_iff (h.slots index progress hslot)]
    cases hold : (FinMap.ofList (terminal.output.zipIdx.map
        fun entry => ((entry.2 : ℤ), entry.1))).lookup index with
    | none => exact hitems _ ⟨index, by rw [hold, hslot]; rfl⟩
    | some final =>
      exact defined_mergeResponseItem.mp (hitems _ ⟨index, by rw [hold, hslot]; rfl⟩)
  · rintro hslots item ⟨index, hitem⟩
    cases hold : (FinMap.ofList (terminal.output.zipIdx.map
        fun entry => ((entry.2 : ℤ), entry.1))).lookup index with
    | none =>
      rw [hold] at hitem
      obtain ⟨progress, hslot, rfl⟩ := map_eq_some_iff.mp hitem
      exact (defined_materialize_iff (h.slots index progress hslot)).mpr
        (hslots index progress hslot)
    | some final =>
      cases hslot : state.outputItems.outputSlots.lookup index with
      | none =>
        rw [hold, hslot] at hitem
        cases hitem
        exact hfinal index _ hold
      | some progress =>
        rw [hold, hslot] at hitem
        cases hitem
        exact defined_mergeResponseItem.mpr
          ((defined_materialize_iff (h.slots index progress hslot)).mpr
            (hslots index progress hslot))

variable {η : Type} (jsonDecodeError : Text → Text → η) (showEvent : ResponseStreamEvent π → Text)

/-- The response of a terminal event, before it gets a model. -/
def finishedResponse (terminal : Response π) (state : StreamAssemblyState π) : Response π :=
  mergeDoneResponse state.lifecycleResponse []
    (setResponseOutput (assembledTerminalOutput terminal state) terminal)

theorem nonEmptyText_eq_nil {newer older : Text} :
    nonEmptyText newer older = [] ↔ newer = [] ∧ older = [] := by
  cases newer <;> simp [nonEmptyText]

theorem finishedResponse_id (terminal : Response π) :
    (finishedResponse terminal state).responseId = [] ↔ terminal.responseId = [] ∧
      ∀ base ∈ state.lifecycleResponse, base.responseId = [] := by
  unfold finishedResponse mergeDoneResponse
  cases state.lifecycleResponse with
  | none => simp [mergeCompletedResponseOutput, setResponseOutput]
  | some base =>
    simp [mergeCompletedResponseOutput, mergeResponseFragment, setResponseOutput,
      nonEmptyText_eq_nil]

/-- The output is the assembled one; an empty one leaves that of the lifecycle response. -/
theorem defined_finishedResponse_iff (h : StateSound state) (terminal : Response π) :
    (finishedResponse terminal state).Defined ↔
      ∀ item ∈ assembledTerminalOutput terminal state, item.Defined := by
  have hlifecycle := h.lifecycle
  unfold finishedResponse mergeDoneResponse
  cases hbase : state.lifecycleResponse with
  | none =>
    simp [Response.Defined, mergeCompletedResponseOutput, setResponseOutput, mergeOutputItems_nil]
  | some base =>
    have hdefined := hlifecycle base hbase
    cases hassembled : assembledTerminalOutput terminal state with
    | nil =>
      simpa [Response.Defined, mergeCompletedResponseOutput, mergeResponseFragment,
        setResponseOutput, mergeOutputItems_nil] using hdefined
    | cons item items =>
      simp [Response.Defined, mergeCompletedResponseOutput, mergeResponseFragment,
        setResponseOutput, mergeOutputItems_nil]

/-- The items of a terminal response have been decoded. -/
theorem defined_terminalResponse {decoded : DecodedEvent π}
    (h : terminalResponse decoded.event = some terminal) : terminal.Defined := by
  obtain ⟨event, hresponse, hitem, hindex⟩ := decoded
  cases event <;> cases h <;> (have hdefined := hresponse _ rfl; exact hdefined)

/-- A response without an id is an error, and a model hint changes neither id nor output. -/
theorem finishStreamResponse_of_terminal (state : StreamAssemblyState π) (modelHint : Option Text)
    {event : ResponseStreamEvent π}
    (h : terminalResponse event = some terminal) :
    ∃ response err, finishStreamResponse jsonDecodeError showEvent modelHint state event =
        (if List.isEmpty response.responseId then .error err else .ok response) ∧
      response.responseId = (finishedResponse terminal state).responseId ∧
      response.output = (finishedResponse terminal state).output := by
  unfold finishStreamResponse
  rw [h]
  refine ⟨_, _, rfl, ?_, ?_⟩
  · split <;> rfl
  · split <;> rfl

/-- **A terminal event is finished without a failing part exactly when that is safe.** -/
theorem defined_finish_iff (h : StateSound state) (modelHint : Option Text)
    (decoded : DecodedEvent π) :
    ResultDefined (finishStreamResponse jsonDecodeError showEvent modelHint state decoded.event) ↔
      SafeFinish state decoded.event := by
  cases hterminal : terminalResponse decoded.event with
  | none =>
    simp only [finishStreamResponse, SafeFinish, hterminal]
    simp [ResultDefined]
  | some terminal =>
    obtain ⟨response, err, hfinish, hid, houtput⟩ := finishStreamResponse_of_terminal
      jsonDecodeError showEvent state modelHint hterminal
    have hdefined : response.Defined ↔ ∀ index progress,
        state.outputItems.outputSlots.lookup index = some progress →
          ∀ i, ¬ FailsAt progress i := by
      rw [← defined_assembled_iff h (defined_terminalResponse hterminal),
        ← defined_finishedResponse_iff h, Response.Defined, Response.Defined, houtput]
    have hsafe : SafeFinish state decoded.event ↔ (terminal.responseId = [] ∧
        ∀ base ∈ state.lifecycleResponse, base.responseId = []) ∨ response.Defined := by
      rw [hdefined, SafeFinish, hterminal]
      simp only [mem_def, some.injEq, forall_eq']
    rw [hsafe, ← finishedResponse_id, ← hid, hfinish]
    cases hempty : response.responseId with
    | nil | cons c cs => simp [ResultDefined]

/-- A terminal event changes the lifecycle response only. -/
theorem safeFinish_apply (incompleteAsFailure : Bool) {event : ResponseStreamEvent π}
    (h : finishes incompleteAsFailure event = true) :
    SafeFinish (applyStreamEvent state event) event ↔ SafeFinish state event := by
  have hids : ∀ terminal : Response π, (terminal.responseId = [] ∧
      ∀ response ∈ (mergeLifecycleResponse terminal state).lifecycleResponse,
        response.responseId = []) ↔
      terminal.responseId = [] ∧
        ∀ response ∈ state.lifecycleResponse, response.responseId = [] := by
    intro terminal
    unfold mergeLifecycleResponse
    cases state.lifecycleResponse with
    | none => simp
    | some base => simp [mergeResponseFragment, nonEmptyText_eq_nil]
  cases event with
  | responseCompletedEvent response | responseDoneEvent response
  | responseIncompleteEvent response =>
    simp only [SafeFinish, terminalResponse, mem_def, some.injEq, forall_eq']
    exact or_congr (hids response) Iff.rfl
  | _ => cases h

/-- **One step of the stream.** -/
theorem defined_step_iff (h : StateSound state) (config : StreamAssemblyConfig π η)
    (modelHint : Option Text) (decoded : DecodedEvent π) :
    ((applyStreamEvent state decoded.event).Defined ∧
      (stepStreamResponse jsonDecodeError showEvent config modelHint state decoded.event).Defined) ↔
        SafeStep config state decoded.event := by
  have happly := defined_applyStreamEvent_iff h decoded
  unfold SafeStep
  rw [happly]
  refine and_congr_right fun hsafe => ?_
  have hfinish := defined_finish_iff jsonDecodeError showEvent (h.apply decoded hsafe) modelHint
    decoded
  have hnext := happly.mpr hsafe
  obtain ⟨event, hresponse, hitem, hindex⟩ := decoded
  simp only at hfinish hnext ⊢
  cases event with
  | responseCompletedEvent | responseDoneEvent =>
    rw [safeFinish_apply true rfl] at hfinish
    simpa [stepStreamResponse, StreamAssemblyStep.Defined, finishes] using hfinish
  | responseIncompleteEvent =>
    cases hconfig : config.incompleteAsFailure with
    | true =>
      simp [stepStreamResponse, StreamAssemblyStep.Defined, ResultDefined, finishes, hconfig]
    | false =>
      rw [safeFinish_apply false rfl] at hfinish
      simpa [stepStreamResponse, StreamAssemblyStep.Defined, finishes, hconfig] using hfinish
  | responseFailedEvent | responseErrorEvent | responseNestedErrorEvent =>
    simp [stepStreamResponse, StreamAssemblyStep.Defined, ResultDefined, finishes]
  | _ => simpa [stepStreamResponse, StreamAssemblyStep.Defined, finishes] using hnext

/-! ### Streams -/

/-- Events are applied one after another. -/
def assemblyStep (state : StreamAssemblyState π) (decoded : DecodedEvent π) :
    Option (StreamAssemblyState π) :=
  some (applyStreamEvent state decoded.event)

/-- Every event of the run was safe. -/
def SafeRun (state : StreamAssemblyState π) (decoded : DecodedEvent π) : Prop :=
  SafeEvent state decoded.event

theorem sound_empty : StateSound (emptyStreamAssemblyState : StreamAssemblyState π) where
  lifecycle := by
    intro response hmem
    cases hmem
  slots := by
    intro index progress hslot
    cases hslot

theorem sound_of_safeRun (h : ReachableBy assemblyStep SafeRun emptyStreamAssemblyState state) :
    StateSound state := by
  apply h.invariant sound_empty
  intro s decoded s' hs hsafe hstep
  cases hstep
  exact hs.apply decoded hsafe

/-- **Stream assembly is defined exactly on safe events.**  In every state that safe events reach,
no part of a summary fails; and there any further event is applied, any event finished and any step
taken without a failing part exactly when that is safe. -/
theorem stream_assembly_defined
    (h : ReachableBy assemblyStep SafeRun emptyStreamAssemblyState state) :
    state.Defined ∧
    (∀ decoded : DecodedEvent π,
      (applyStreamEvent state decoded.event).Defined ↔ SafeEvent state decoded.event) ∧
    (∀ (decoded : DecodedEvent π) (modelHint : Option Text),
      ResultDefined (finishStreamResponse jsonDecodeError showEvent modelHint state decoded.event) ↔
        SafeFinish state decoded.event) ∧
    (∀ (decoded : DecodedEvent π) (config : StreamAssemblyConfig π η) (modelHint : Option Text),
      ((applyStreamEvent state decoded.event).Defined ∧
        (stepStreamResponse jsonDecodeError showEvent config modelHint state
          decoded.event).Defined) ↔ SafeStep config state decoded.event) := by
  have hsound := sound_of_safeRun h
  refine ⟨hsound.defined, ?_, ?_, ?_⟩
  · exact fun decoded => defined_applyStreamEvent_iff hsound decoded
  · exact fun decoded modelHint =>
      defined_finish_iff jsonDecodeError showEvent hsound modelHint decoded
  · exact fun decoded config modelHint =>
      defined_step_iff jsonDecodeError showEvent hsound config modelHint decoded

/-- A reasoning item without a summary. -/
def exampleReasoning : ResponseItem Unit :=
  .reasoningItemValue ⟨some "rs".toList, [], none, none, none⟩

def exampleResponse : Response Unit where
  responseId := "resp".toList
  createdAt := 0
  error := none
  incompleteDetails := none
  model := "model".toList
  object := "response".toList
  output := []
  status := .responseCompleted
  optional := fun _ => none

def exampleAdded : DecodedEvent Unit where
  event := .responseOutputItemAddedEvent exampleReasoning (some 0) none
  response := by simp [eventResponse]
  item := by simp [eventItem, exampleReasoning, ResponseItem.Defined]
  summaryIndex := by simp [eventSummaryIndex]

/-- The text of the part under an index. -/
def exampleText (index : ℤ) (h : -2 ^ 63 ≤ index ∧ index ≤ maxBound) : DecodedEvent Unit where
  event := .responseReasoningSummaryTextDoneEvent (some "rs".toList) (some 0) (some index)
    (some "text".toList) none
  response := by simp [eventResponse]
  item := by simp [eventItem]
  summaryIndex := by
    intro other hmem
    cases hmem
    exact h

def exampleCompleted : DecodedEvent Unit where
  event := .responseCompletedEvent exampleResponse none
  response := by simp [eventResponse, exampleResponse, Response.Defined]
  item := by simp [eventItem]
  summaryIndex := by simp [eventSummaryIndex]

def exampleConfig : StreamAssemblyConfig Unit Text where
  missingCompletionMessage := []
  classifyStreamError := fun _ => []
  classifyFailedResponse := fun _ => []
  incompleteAsFailure := false

/-- A part at index 0 can be set, and the response then finished. -/
theorem stream_assembly_defined_exampleText :
    let state := applyStreamEvent (applyStreamEvent emptyStreamAssemblyState exampleAdded.event)
      (exampleText 0 (by decide)).event
    state.Defined ∧ (ResultDefined (finishStreamResponse (fun message _ => message) (fun _ => [])
      none state exampleCompleted.event) ↔ SafeFinish state exampleCompleted.event) := by
  intro state
  have hrun : ReachableBy assemblyStep SafeRun emptyStreamAssemblyState state := by
    refine (ReachableBy.refl.tail (e := exampleAdded) trivial rfl).tail
      (e := exampleText 0 (by decide)) ?_ rfl
    intro progress hmem
    cases hmem
    exact ⟨by decide, .inl (by decide)⟩
  have hdefined := stream_assembly_defined (fun message _ => message) (fun _ => []) hrun
  exact ⟨hdefined.1, hdefined.2.2.1 exampleCompleted none⟩

/-- **A negative summary index leaves a failing part in the response.** -/
theorem negative_summary_index_fails :
    ∃ response, buildStreamResponseWithModel (fun message _ => message) (fun _ => []) exampleConfig
        none [exampleAdded.event, (exampleText (-1) (by decide)).event, exampleCompleted.event] =
          .ok response ∧
      response.output = [.reasoningItemValue ⟨some "rs".toList, [none], none, none, none⟩] ∧
      ¬ response.Defined := by
  refine ⟨_, rfl, rfl, ?_⟩
  intro hdefined
  exact hdefined (.reasoningItemValue ⟨some "rs".toList, [none], none, none, none⟩) (.head _)
    (.head _)

end HaskellAgent.Responses
