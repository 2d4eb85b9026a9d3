import HaskellAgent.Responses.StreamAssembly

/-!
# The store of output items against a scan of its slots

The store keeps two projections of its slots, the slots that carry each identity and the slots that
are not done, and resolves events through them.  Here they are compared with the slots themselves:
the projections are exact after every event, so the store behaves as a naive one that keeps the
slots only and scans them.
-/

namespace HaskellAgent.Responses

variable {π : Type}

/-! ### What an event asks for -/

/-- What an event asks of the assembly. -/
inductive StreamAction (π : Type)
  /-- Merge a response into the lifecycle response. -/
  | lifecycle (response : Response π)
  /-- Add or finish an item. -/
  | item (explicitIndex : Option ℤ) (done : Bool) (item : ResponseItem π)
  /-- Change the progress of an item. -/
  | progress (explicitIndex : Option ℤ) (identities : List (Option ItemIdentity))
      (update : ItemProgress π → ItemProgress π)
  | ignored

def streamAction : ResponseStreamEvent π → StreamAction π
  | .responseCreatedEvent responseValue _ => .lifecycle responseValue
  | .responseInProgressEvent responseValue _ => .lifecycle responseValue
  | .responseQueuedEvent responseValue _ => .lifecycle responseValue
  | .responseCompletedEvent responseValue _ => .lifecycle responseValue
  | .responseDoneEvent responseValue _ => .lifecycle responseValue
  | .responseFailedEvent responseValue _ => .lifecycle responseValue
  | .responseIncompleteEvent responseValue _ => .lifecycle responseValue
  | .responseOutputItemAddedEvent item outputIndex _ => .item outputIndex false item
  | .responseOutputItemDoneEvent item outputIndex _ => .item outputIndex true item
  | .responseFunctionCallArgumentsDeltaEvent (some value) streamItemId streamOutputIndex _ =>
      .progress streamOutputIndex [streamItemIdentity "function_call".toList streamItemId]
        (functionArgumentDelta value)
  | .responseFunctionCallArgumentsDoneEvent arguments functionName streamItemId
      streamOutputIndex _ =>
      .progress streamOutputIndex [streamItemIdentity "function_call".toList streamItemId]
        (functionArgumentDone arguments functionName streamItemId)
  | .responseCustomToolInputDeltaEvent (some value) streamItemId streamCallId streamOutputIndex _ =>
      .progress streamOutputIndex
        [streamItemIdentity "custom_tool_call".toList streamItemId,
          streamCallIdentity "custom_tool_call".toList streamCallId]
        (customToolInputDelta value)
  | .responseCustomToolInputDoneEvent inputText streamItemId streamCallId streamOutputIndex _ =>
      .progress streamOutputIndex
        [streamItemIdentity "custom_tool_call".toList streamItemId,
          streamCallIdentity "custom_tool_call".toList streamCallId]
        (customToolInputDone inputText streamItemId streamCallId)
  | .responseReasoningSummaryTextDoneEvent streamItemId streamOutputIndex (some index) (some value)
      _ =>
      .progress streamOutputIndex [streamItemIdentity "reasoning".toList streamItemId]
        (reasoningSummaryDone value streamItemId index)
  | .otherResponseStreamEvent .reasoningSummaryTextDelta _ (some value) streamItemId
      streamOutputIndex (some index) _ =>
      .progress streamOutputIndex [streamItemIdentity "reasoning".toList streamItemId]
        (reasoningSummaryDelta value index)
  | _ => .ignored

def StreamAction.apply (state : StreamAssemblyState π) : StreamAction π → StreamAssemblyState π
  | .lifecycle response => mergeLifecycleResponse response state
  | .item explicitIndex done value => updateItem explicitIndex done value state
  | .progress explicitIndex identities update =>
      updateResolvedProgress explicitIndex identities update state
  | .ignored => state

/-- An event has the effect it asks for. -/
theorem applyStreamEvent_eq (state : StreamAssemblyState π) (event : ResponseStreamEvent π) :
    applyStreamEvent state event = (streamAction event).apply state := by
  -- an event without its text or its part index is ignored
  cases event with
  | responseFunctionCallArgumentsDeltaEvent delta _ _ _
  | responseCustomToolInputDeltaEvent delta _ _ _ _ => cases delta <;> rfl
  | responseReasoningSummaryTextDoneEvent _ _ index text _ => cases index <;> cases text <;> rfl
  | otherResponseStreamEvent kind _ delta _ _ index _ =>
    cases kind <;> cases delta <;> cases index <;> rfl
  | _ => rfl

/-! ### The naive store -/

/-- The item of a slot carries the identity. -/
def carries (identity : ItemIdentity) (progress : ItemProgress π) : Bool :=
  identity ∈ itemAliases progress.itemValue

/-- The lowest slot with the first of the identities that any slot carries. -/
def naiveIdentityIndex (identities : List (Option ItemIdentity))
    (slots : FinMap ℤ (ItemProgress π)) : Option ℤ :=
  (identities.reduceOption).findSome? fun identity => slots.lowest (carries identity)

/-- The slot after the greatest one. -/
def naiveNextIndex (slots : FinMap ℤ (ItemProgress π)) : ℤ :=
  match slots.lastKey with
  | none => 0
  | some index => wrapInt (index + 1)

/-- The naive store: one progress a slot, and every lookup a scan. -/
def applyNaive (slots : FinMap ℤ (ItemProgress π)) : StreamAction π → FinMap ℤ (ItemProgress π)
  | .lifecycle _ => slots
  | .item explicitIndex done item =>
      let index := (explicitIndex <|> naiveIdentityIndex ((itemAliases item).map some) slots <|>
        if done then slots.lowest (fun progress => !progress.itemDone) else none).getD
          (naiveNextIndex slots)
      slots.insert index (itemProgress done item (slots.lookup index))
  | .progress explicitIndex identities update =>
      match explicitIndex <|> naiveIdentityIndex identities slots with
      | none => slots
      | some index =>
          match slots.lookup index with
          | none => slots
          | some progress => slots.insert index (update progress)
  | .ignored => slots

/-! ### The projections of the slots -/

/-- How a set of slots is kept. -/
def slotSet (indexes : Finset ℤ) : Option (Finset ℤ) := if indexes = ∅ then none else some indexes

/-- The projections of the store are those of its slots. -/
structure OutputItemStore.Synced (store : OutputItemStore π) : Prop where
  aliases : ∀ identity, store.outputAliases identity
    = slotSet (store.outputSlots.keysWith (carries identity))
  pending : store.outputPending
    = store.outputSlots.keysWith fun progress => !progress.itemDone

theorem slotSet_bind_least (indexes : Finset ℤ) :
    (slotSet indexes).bind minimumIndex = FinMap.least indexes := by
  unfold slotSet
  split
  · next hempty =>
    rw [hempty]
    rfl
  · rfl

theorem slotSet_bind_erase (index : ℤ) (indexes : Finset ℤ) :
    ((slotSet indexes).bind fun kept =>
      if kept.erase index = ∅ then none else some (kept.erase index))
      = slotSet (indexes.erase index) := by
  unfold slotSet
  by_cases hempty : indexes = ∅
  · simp [hempty]
  · rw [if_neg hempty]
    rfl

theorem slotSet_insert (index : ℤ) (indexes : Finset ℤ) :
    some (match slotSet indexes with
      | none => {index}
      | some kept => {index} ∪ kept) = slotSet (insert index indexes) := by
  unfold slotSet
  rw [if_neg (Finset.insert_ne_empty index indexes)]
  by_cases hempty : indexes = ∅
  · simp [hempty]
  · rw [if_neg hempty]
    rfl

/-- Changing the sets of some identities in turn, where changing one twice is changing it once. -/
theorem foldl_update_slotSet (change : Option (Finset ℤ) → Option (Finset ℤ))
    (changed : Finset ℤ → Finset ℤ) (hchange : ∀ s, change (slotSet s) = slotSet (changed s))
    (hidem : ∀ s, changed (changed s) = changed s) (identities : List ItemIdentity)
    (sets : ItemIdentity → Finset ℤ) :
    identities.foldl
        (fun current identity => Function.update current identity (change (current identity)))
        (fun identity => slotSet (sets identity))
      = fun identity =>
          slotSet (if identity ∈ identities then changed (sets identity) else sets identity) := by
  -- on the identities, for the sets after those before
  induction identities generalizing sets with
  | nil => rfl
  | cons identity rest ih =>
    have hstep : Function.update (fun other => slotSet (sets other)) identity
        (change ((fun other => slotSet (sets other)) identity))
        = fun other => slotSet (Function.update sets identity (changed (sets identity)) other) := by
      funext other
      -- one change
      by_cases hother : other = identity
      · subst hother
        simp [hchange]
      · simp [hother]
    rw [List.foldl_cons, hstep, ih]
    funext other
    by_cases hother : other = identity
    · subst hother
      simp [hidem]
    · simp [hother]

/-- Adding the aliases of an item adds its slot to each of its identities. -/
theorem addItemAliases_eq (index : ℤ) (item : ResponseItem π) (sets : ItemIdentity → Finset ℤ) :
    addItemAliases index item (fun identity => slotSet (sets identity))
      = fun identity => slotSet
          (if identity ∈ itemAliases item then insert index (sets identity) else sets identity) :=
  foldl_update_slotSet
    (fun current => some (match current with
      | none => {index}
      | some indexes => {index} ∪ indexes))
    (insert index) (slotSet_insert index) (fun s => Finset.insert_idem index s) _ _

/-- Removing the aliases of an item removes its slot from each of its identities. -/
theorem removeItemAliases_eq (index : ℤ) (item : ResponseItem π) (sets : ItemIdentity → Finset ℤ) :
    removeItemAliases index item (fun identity => slotSet (sets identity))
      = fun identity => slotSet
          (if identity ∈ itemAliases item then (sets identity).erase index else sets identity) :=
  foldl_update_slotSet
    (fun current => current.bind fun indexes =>
      let remaining := indexes.erase index
      if remaining = ∅ then none else some remaining)
    (fun s => s.erase index) (slotSet_bind_erase index) (fun _ => Finset.erase_idem) _ _

/-- Without the old item of a slot, no identity has the slot. -/
theorem aliasesWithoutOld_eq {store : OutputItemStore π} (h : store.Synced) (index : ℤ) :
    aliasesWithoutOld index store
      = fun identity => slotSet ((store.outputSlots.keysWith (carries identity)).erase index) := by
  have haliases : store.outputAliases
      = fun identity => slotSet (store.outputSlots.keysWith (carries identity)) :=
    funext h.aliases
  unfold aliasesWithoutOld
  -- a slot without an item has no identities to lose
  cases hold : store.outputSlots.lookup index with
  | none =>
    rw [haliases]
    funext identity
    rw [Finset.erase_eq_of_notMem (FinMap.not_mem_keysWith_of_lookup_eq_none hold)]
  | some old =>
    rw [haliases]
    simp only [removeItemAliases_eq]
    funext identity
    split
    · rfl
    · next hother =>
      have hnot : index ∉ store.outputSlots.keysWith (carries identity) := by
        rw [FinMap.mem_keysWith]
        rintro ⟨current, hcurrent, hcarries⟩
        rw [hold, Option.some.injEq] at hcurrent
        subst hcurrent
        exact hother (by simpa [carries] using hcarries)
      rw [Finset.erase_eq_of_notMem hnot]

/-- **The only mutation of the store keeps its projections exact.** -/
theorem setOutputSlot_synced {store : OutputItemStore π} (h : store.Synced) (index : ℤ)
    (progress : ItemProgress π) : (setOutputSlot index progress store).Synced := by
  constructor
  · intro identity
    unfold setOutputSlot
    simp only [aliasesWithoutOld_eq h, addItemAliases_eq, FinMap.keysWith_insert, carries,
      decide_eq_true_eq]
  · unfold setOutputSlot
    simp only [FinMap.keysWith_insert, h.pending]
    cases progress.itemDone with
    | true => simp
    | false =>
      ext j
      by_cases hj : j = index <;> simp [hj]

/-! ### Resolving an event -/

section Resolution

variable {state : StreamAssemblyState π}

theorem findIdentityIndex_eq (h : state.outputItems.Synced)
    (identities : List (Option ItemIdentity)) :
    findIdentityIndex identities state
      = naiveIdentityIndex identities state.outputItems.outputSlots := by
  unfold findIdentityIndex naiveIdentityIndex
  congr 1
  funext identity
  rw [h.aliases, slotSet_bind_least, FinMap.lowest_eq_least]

theorem findPendingIndex_eq (h : state.outputItems.Synced) :
    findPendingIndex state
      = state.outputItems.outputSlots.lowest fun progress => !progress.itemDone := by
  rw [findPendingIndex, h.pending, FinMap.lowest_eq_least]
  rfl

/-- **One event on the store** is that event on the naive store, and keeps the projections exact. -/
theorem apply_naive (h : state.outputItems.Synced) (action : StreamAction π) :
    (action.apply state).outputItems.Synced ∧
      (action.apply state).outputItems.outputSlots
        = applyNaive state.outputItems.outputSlots action := by
  -- both sides resolve to one index and write one progress there
  cases action with
  | lifecycle response => exact ⟨h, rfl⟩
  | item explicitIndex done item =>
    refine ⟨setOutputSlot_synced h _ _, ?_⟩
    simp only [StreamAction.apply, updateItem, findItemIndex, findIdentityIndex_eq h,
      findPendingIndex_eq h, applyNaive, setOutputSlot]
    rfl
  | progress explicitIndex identities update =>
    simp only [StreamAction.apply, updateResolvedProgress, findIdentityIndex_eq h, applyNaive]
    cases explicitIndex <|> naiveIdentityIndex identities state.outputItems.outputSlots with
    | none => exact ⟨h, rfl⟩
    | some index =>
      simp only [adjustOutputProgress]
      cases state.outputItems.outputSlots.lookup index with
      | none => exact ⟨h, rfl⟩
      | some progress => exact ⟨setOutputSlot_synced h _ _, rfl⟩
  | ignored => exact ⟨h, rfl⟩

end Resolution

theorem emptyOutputItemStore_synced : (emptyOutputItemStore : OutputItemStore π).Synced :=
  ⟨fun _ => rfl, rfl⟩

/-- **The store refines the naive one.**  After any sequence of events, each identity has exactly
the slots whose current item carries it, and none without such a slot; the pending slots are those
that are not done; and the slots are those of the naive store. -/
theorem output_item_store_refines_naive (events : List (ResponseStreamEvent π)) :
    let store := (events.foldl applyStreamEvent emptyStreamAssemblyState).outputItems
    (∀ identity, store.outputAliases identity
      = if store.outputSlots.keysWith (carries identity) = ∅ then none
        else some (store.outputSlots.keysWith (carries identity))) ∧
    store.outputPending = store.outputSlots.keysWith (fun progress => !progress.itemDone) ∧
    store.outputSlots
      = events.foldl (fun slots event => applyNaive slots (streamAction event)) FinMap.empty := by
  have hrun : ∀ (rest : List (ResponseStreamEvent π)) (state : StreamAssemblyState π),
      state.outputItems.Synced →
      (rest.foldl applyStreamEvent state).outputItems.Synced ∧
        (rest.foldl applyStreamEvent state).outputItems.outputSlots
          = rest.foldl (fun slots event => applyNaive slots (streamAction event))
              state.outputItems.outputSlots := by
    -- the run from any synchronized state
    intro rest
    induction rest with
    | nil => exact fun state h => ⟨h, rfl⟩
    | cons event rest ih =>
      intro state h
      obtain ⟨hsynced, hslots⟩ := apply_naive h (streamAction event)
      rw [← applyStreamEvent_eq] at hsynced hslots
      obtain ⟨hlast, hall⟩ := ih (applyStreamEvent state event) hsynced
      refine ⟨hlast, ?_⟩
      rw [List.foldl_cons, List.foldl_cons, hall, hslots]
  obtain ⟨hsynced, hslots⟩ := hrun events emptyStreamAssemblyState emptyOutputItemStore_synced
  exact ⟨hsynced.aliases, hsynced.pending, hslots⟩

end HaskellAgent.Responses
