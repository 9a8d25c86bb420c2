import Mathlib.Data.List.Nodup
import Mathlib.Data.List.Perm.Basic
import TagLint.SourceStore

/-!
# Histories of a shared store

A history is any sequence of calls on live handles, starting with one handle on an empty store. What
a store holds can be read off its history: which handles are live, and which texts have been kept.

* `History.recorded`: the handles and the texts of a store are those of its history.
* `takeSources_of_history`: only the last live handle gets the kept texts, and it gets all of them.
-/

namespace TagLint

/-! ## Calls and events -/

/-- What can be done with a handle. -/
inductive HandleCall
  | parse (bytes : ByteArray) (path : Option String) (keep : Bool)
  | clone
  | release
  | takeSources

/-- What a call gives back. -/
inductive HandleAnswer
  | parsed (result : Except Error ParsedDocument)
  | cloned (made : HandleId)
  | released
  | taken (result : Except Error (List (DocumentId × String)))

/-- A call on a handle, with its answer. -/
structure HandleEvent where
  handle : HandleId
  call : HandleCall
  answer : HandleAnswer

namespace HandleEvent

/-- The handle that an event has made. -/
def made? (event : HandleEvent) : Option HandleId :=
  match event.answer with
  | .cloned made => some made
  | _ => none

/-- The handle that an event has used up, whether or not the call succeeded. -/
def ended? (event : HandleEvent) : Option HandleId :=
  match event.call with
  | .release | .takeSources => some event.handle
  | _ => none

/-- The number that an event has given to a document. -/
def numbered? (event : HandleEvent) : Option DocumentId :=
  match event.answer with
  | .parsed (.ok document) => some document.id
  | _ => none

/-- The text that an event has kept, under the number of its document. -/
def kept? (event : HandleEvent) : Option (DocumentId × String) :=
  match event.call, event.answer with
  | .parse bytes _ true, .parsed (.ok document) => (String.fromUTF8? bytes).map (document.id, ·)
  | _, _ => none

end HandleEvent

/-- The handles that have been made, the first of them without a call. -/
def madeHandles (events : List HandleEvent) : List HandleId :=
  0 :: events.filterMap (·.made?)

def endedHandles (events : List HandleEvent) : List HandleId :=
  events.filterMap (·.ended?)

/-- The handles that have been made and not been used up. -/
def liveHandles (events : List HandleEvent) : List HandleId :=
  (madeHandles events).filter (· ∉ endedHandles events)

def documentNumbers (events : List HandleEvent) : List DocumentId :=
  events.filterMap (·.numbered?)

/-- The texts that have been kept, through whichever handle. -/
def keptTexts (events : List HandleEvent) : List (DocumentId × String) :=
  events.filterMap (·.kept?)

/-- What a call on a handle answers, and the store after it. -/
def SourceStore.perform (store : SourceStore) (handle : HandleId) :
    HandleCall → HandleAnswer × SourceStore
  | .parse bytes path keep => (store.parse bytes path keep).map .parsed id
  | .clone => store.clone.map .cloned id
  | .release => (.released, store.release handle)
  | .takeSources => (store.takeSources handle).map .taken id

/-- A store with the calls that have led to it, each on a handle that was live. -/
inductive History : List HandleEvent → SourceStore → Prop
  | fresh : History [] .fresh
  | call {events : List HandleEvent} {store : SourceStore} (h : History events store)
      (handle : HandleId) (hLive : handle ∈ liveHandles events) (call : HandleCall) :
      History (events ++ [⟨handle, call, (store.perform handle call).1⟩])
        (store.perform handle call).2

/-! ## Outcomes of calls -/

namespace SourceStore

variable {bytes : ByteArray} (store : SourceStore) (path : Option String) (keep : Bool)

theorem parse_of_none (h : String.fromUTF8? bytes = none) :
    store.parse bytes path keep = (.error (.io (path.getD anonymousPath) .invalidText), store) := by
  simp only [parse, decodeSource, h]

theorem parse_of_some {text : String} (h : String.fromUTF8? bytes = some text) :
    store.parse bytes path keep =
      (.ok ⟨store.nextDocument, Php.parseSource text.toList⟩,
        { store with
          nextDocument := store.nextDocument + 1
          kept := if keep then store.kept ++ [(store.nextDocument, text)] else store.kept }) := by
  simp only [parse, decodeSource, h]

variable (handle : HandleId)

theorem takeSources_of_erase_eq_nil (h : store.live.erase handle = []) :
    store.takeSources handle = (.ok store.kept, { store.release handle with kept := [] }) := by
  simp only [takeSources, release, h, List.isEmpty_nil, if_true]

theorem takeSources_of_erase_ne_nil (h : store.live.erase handle ≠ []) :
    store.takeSources handle = (.error .sharedSources, store.release handle) := by
  simp only [takeSources, release, List.isEmpty_iff, h, if_false]

end SourceStore

/-! ## What an event adds -/

section Additions

variable {events : List HandleEvent} {event : HandleEvent}

theorem filterMap_concat {α β : Type} (f : α → Option β) (as : List α) (a : α) :
    (as ++ [a]).filterMap f = as.filterMap f ++ (f a).toList := by
  rw [List.filterMap_append, List.filterMap_cons, List.filterMap_nil]
  cases f a <;> rfl

theorem madeHandles_concat :
    madeHandles (events ++ [event]) = madeHandles events ++ event.made?.toList :=
  congrArg (0 :: ·) (filterMap_concat _ events event)

theorem endedHandles_concat :
    endedHandles (events ++ [event]) = endedHandles events ++ event.ended?.toList :=
  filterMap_concat _ events event

theorem documentNumbers_concat :
    documentNumbers (events ++ [event]) = documentNumbers events ++ event.numbered?.toList :=
  filterMap_concat _ events event

theorem keptTexts_concat :
    keptTexts (events ++ [event]) = keptTexts events ++ event.kept?.toList :=
  filterMap_concat _ events event

theorem liveHandles_concat (hMade : event.made? = none) (hEnded : event.ended? = none) :
    liveHandles (events ++ [event]) = liveHandles events := by
  simp only [liveHandles, madeHandles_concat, endedHandles_concat, hMade, hEnded,
    Option.toList_none, List.append_nil]

theorem liveHandles_concat_made {made : HandleId} (hMade : event.made? = some made)
    (hEnded : event.ended? = none) (hNew : made ∉ endedHandles events) :
    liveHandles (events ++ [event]) = liveHandles events ++ [made] := by
  simp only [liveHandles, madeHandles_concat, endedHandles_concat, hMade, hEnded,
    Option.toList_none, Option.toList_some, List.append_nil, List.filter_append]
  simp [hNew]

theorem liveHandles_concat_ended {handle : HandleId} (hMade : event.made? = none)
    (hEnded : event.ended? = some handle) :
    liveHandles (events ++ [event]) = (liveHandles events).filter (· != handle) := by
  simp only [liveHandles, madeHandles_concat, endedHandles_concat, hMade, hEnded,
    Option.toList_none, Option.toList_some, List.append_nil, List.filter_filter]
  apply List.filter_congr
  intro other _
  rw [Bool.eq_iff_iff]
  simp [and_comm]

end Additions

/-! ## What a store records -/

/-- Handles and documents are numbered on from the highest number so far, so no number comes
twice. -/
theorem nodup_append_next {numbers : List Nat} {next : Nat} (hNodup : numbers.Nodup)
    (hLt : ∀ number ∈ numbers, number < next) : (numbers ++ [next]).Nodup := by
  rw [List.nodup_append_comm, List.singleton_append, List.nodup_cons]
  refine ⟨?_, hNodup⟩
  intro hMem
  exact Nat.lt_irrefl next (hLt next hMem)

theorem lt_succ_of_mem_append_next {numbers : List Nat} {next : Nat}
    (hLt : ∀ number ∈ numbers, number < next) :
    ∀ number ∈ numbers ++ [next], number < next + 1 := by
  intro number hMem
  rcases List.mem_append.mp hMem with hOld | hLast
  · exact Nat.lt_succ_of_lt (hLt number hOld)
  · rw [List.mem_singleton.mp hLast]
    exact Nat.lt_succ_self next

/-- The live handles of a store are those of its history, and its next handle is new. -/
structure HandlesRecorded (events : List HandleEvent) (store : SourceStore) : Prop where
  live : store.live = liveHandles events
  made_nodup : (madeHandles events).Nodup
  made_lt : ∀ handle ∈ madeHandles events, handle < store.nextHandle
  ended_made : ∀ handle ∈ endedHandles events, handle ∈ madeHandles events

/-- The texts of a store are those of its history, as long as a handle is live that could take them,
and its next document number is new. -/
structure TextsRecorded (events : List HandleEvent) (store : SourceStore) : Prop where
  numbers_nodup : (documentNumbers events).Nodup
  numbers_lt : ∀ number ∈ documentNumbers events, number < store.nextDocument
  kept : store.live ≠ [] → store.kept = keptTexts events

namespace HandlesRecorded

variable {events : List HandleEvent} {event : HandleEvent} {store store' : SourceStore}

theorem live_nodup (h : HandlesRecorded events store) : (liveHandles events).Nodup :=
  h.made_nodup.filter _

theorem unmoved (h : HandlesRecorded events store) (hMade : event.made? = none)
    (hEnded : event.ended? = none) (hLive : store'.live = store.live)
    (hNext : store'.nextHandle = store.nextHandle) : HandlesRecorded (events ++ [event]) store' where
  live := by rw [hLive, liveHandles_concat hMade hEnded, h.live]
  made_nodup := by simpa [madeHandles_concat, hMade] using h.made_nodup
  made_lt := by simpa [madeHandles_concat, hMade, hNext] using h.made_lt
  ended_made := by simpa [madeHandles_concat, endedHandles_concat, hMade, hEnded] using h.ended_made

theorem clone (h : HandlesRecorded events store) (hMade : event.made? = some store.clone.1)
    (hEnded : event.ended? = none) : HandlesRecorded (events ++ [event]) store.clone.2 := by
  have hAll : madeHandles (events ++ [event]) = madeHandles events ++ [store.nextHandle] := by
    rw [madeHandles_concat, hMade]
    rfl
  have hNew : store.nextHandle ∉ endedHandles events := by
    intro hMem
    exact Nat.lt_irrefl _ (h.made_lt _ (h.ended_made _ hMem))
  constructor
  · rw [liveHandles_concat_made hMade hEnded hNew, ← h.live]
    rfl
  · rw [hAll]
    exact nodup_append_next h.made_nodup h.made_lt
  · rw [hAll]
    exact lt_succ_of_mem_append_next h.made_lt
  · rw [hAll, endedHandles_concat, hEnded, Option.toList_none, List.append_nil]
    intro other hMem
    exact List.mem_append_left _ (h.ended_made other hMem)

/-- A handle is used up in the same way by a release and by an attempt to take the texts. -/
theorem ended {handle : HandleId} (h : HandlesRecorded events store)
    (hMem : handle ∈ liveHandles events) (hMade : event.made? = none)
    (hEnded : event.ended? = some handle) (hLive : store'.live = store.live.erase handle)
    (hNext : store'.nextHandle = store.nextHandle) :
    HandlesRecorded (events ++ [event]) store' := by
  have hAll : madeHandles (events ++ [event]) = madeHandles events := by
    rw [madeHandles_concat, hMade, Option.toList_none, List.append_nil]
  constructor
  · rw [hLive, liveHandles_concat_ended hMade hEnded, h.live, h.live_nodup.erase_eq_filter]
  · rw [hAll]
    exact h.made_nodup
  · rw [hAll, hNext]
    exact h.made_lt
  · rw [hAll, endedHandles_concat, hEnded]
    intro other hOther
    rcases List.mem_append.mp hOther with hOld | hLast
    · exact h.ended_made other hOld
    · rw [List.mem_singleton.mp hLast]
      exact List.mem_of_mem_filter hMem

end HandlesRecorded

namespace TextsRecorded

variable {events : List HandleEvent} {event : HandleEvent} {store store' : SourceStore}

theorem unmoved (h : TextsRecorded events store) (hNumbered : event.numbered? = none)
    (hKept : event.kept? = none) (hNext : store'.nextDocument = store.nextDocument)
    (hStore : store'.live ≠ [] → store.live ≠ [] ∧ store'.kept = store.kept) :
    TextsRecorded (events ++ [event]) store' where
  numbers_nodup := by simpa [documentNumbers_concat, hNumbered] using h.numbers_nodup
  numbers_lt := by simpa [documentNumbers_concat, hNumbered, hNext] using h.numbers_lt
  kept := by
    intro hNonempty
    obtain ⟨hBefore, hSame⟩ := hStore hNonempty
    rw [keptTexts_concat, hKept, hSame, h.kept hBefore, Option.toList_none, List.append_nil]

theorem parse (h : TextsRecorded events store) {bytes : ByteArray} {text : String}
    (hText : String.fromUTF8? bytes = some text) (hNonempty : store.live ≠ []) (handle : HandleId)
    (path : Option String) (keep : Bool) :
    TextsRecorded
      (events ++ [⟨handle, .parse bytes path keep, .parsed (store.parse bytes path keep).1⟩])
      (store.parse bytes path keep).2 := by
  rw [store.parse_of_some path keep hText]
  constructor
  · rw [documentNumbers_concat]
    exact nodup_append_next h.numbers_nodup h.numbers_lt
  · rw [documentNumbers_concat]
    exact lt_succ_of_mem_append_next h.numbers_lt
  · intro _
    rw [keptTexts_concat, ← h.kept hNonempty]
    cases keep with
    | false => exact (List.append_nil _).symm
    | true => simp [HandleEvent.kept?, hText]

end TextsRecorded

/-- The state of a store is that of its history. -/
structure Recorded (events : List HandleEvent) (store : SourceStore) : Prop where
  handles : HandlesRecorded events store
  texts : TextsRecorded events store

theorem recorded_fresh : Recorded [] .fresh where
  handles :=
    { live := rfl
      made_nodup := List.nodup_singleton 0
      made_lt := by simp [madeHandles, SourceStore.fresh]
      ended_made := by simp [endedHandles] }
  texts :=
    { numbers_nodup := List.nodup_nil
      numbers_lt := by simp [documentNumbers]
      kept := fun _ => rfl }

namespace Recorded

variable {events : List HandleEvent} {store : SourceStore} {handle : HandleId}

theorem perform (h : Recorded events store) (hLive : handle ∈ liveHandles events)
    (call : HandleCall) :
    Recorded (events ++ [⟨handle, call, (store.perform handle call).1⟩])
      (store.perform handle call).2 := by
  have hNonempty : store.live ≠ [] := h.handles.live ▸ List.ne_nil_of_mem hLive
  cases call with
  | parse bytes path keep =>
    cases hText : String.fromUTF8? bytes with
    | none =>
      have hFailed := store.parse_of_none path keep hText
      have hKept : HandleEvent.kept? ⟨handle, .parse bytes path keep, .parsed (.error
          (.io (path.getD anonymousPath) .invalidText))⟩ = none := by
        cases keep <;> rfl
      simp only [SourceStore.perform, hFailed, Prod.map_apply, id_eq]
      exact ⟨h.handles.unmoved rfl rfl rfl rfl,
        h.texts.unmoved rfl hKept rfl fun hLive' => ⟨hLive', rfl⟩⟩
    | some text =>
      refine ⟨?_, h.texts.parse hText hNonempty handle path keep⟩
      simp only [SourceStore.perform, store.parse_of_some path keep hText, Prod.map_apply, id_eq]
      exact h.handles.unmoved rfl rfl rfl rfl
  | clone =>
    exact ⟨h.handles.clone rfl rfl, h.texts.unmoved rfl rfl rfl fun _ => ⟨hNonempty, rfl⟩⟩
  | release =>
    exact ⟨h.handles.ended hLive rfl rfl rfl rfl,
      h.texts.unmoved rfl rfl rfl fun _ => ⟨hNonempty, rfl⟩⟩
  | takeSources =>
    by_cases hLast : store.live.erase handle = []
    · -- the texts are gone, and so is every handle that could ask for them
      simp only [SourceStore.perform, store.takeSources_of_erase_eq_nil handle hLast,
        Prod.map_apply, id_eq]
      exact ⟨h.handles.ended hLive rfl rfl rfl rfl,
        h.texts.unmoved rfl rfl rfl fun hLeft => absurd hLast hLeft⟩
    · simp only [SourceStore.perform, store.takeSources_of_erase_ne_nil handle hLast,
        Prod.map_apply, id_eq]
      exact ⟨h.handles.ended hLive rfl rfl rfl rfl,
        h.texts.unmoved rfl rfl rfl fun _ => ⟨hNonempty, rfl⟩⟩

end Recorded

theorem History.recorded {events : List HandleEvent} {store : SourceStore}
    (h : History events store) : Recorded events store := by
  induction h with
  | fresh => exact recorded_fresh
  | call _ handle hLive call ih => exact ih.perform hLive call

/-! ## Taking the texts -/

theorem lookup_eq_some_iff_mem {entries : List (DocumentId × String)}
    (h : (entries.map Prod.fst).Nodup) {id : DocumentId} {text : String} :
    entries.lookup id = some text ↔ (id, text) ∈ entries := by
  induction entries with
  | nil => simp
  | cons entry entries ih =>
    obtain ⟨first, kept⟩ := entry
    rw [List.map_cons, List.nodup_cons] at h
    by_cases hFirst : id = first
    · subst hFirst
      rw [List.lookup_cons_self, List.mem_cons, Prod.mk.injEq]
      constructor
      · intro hText
        exact .inl ⟨rfl, (Option.some.inj hText).symm⟩
      · rintro (⟨-, rfl⟩ | hMem)
        · rfl
        · exact absurd (List.mem_map_of_mem hMem) h.1
    · rw [List.lookup_cons, beq_false_of_ne hFirst, List.mem_cons, Prod.mk.injEq]
      simp [hFirst, ih h.2]

theorem filterMap_sublist_filterMap {α β : Type} {f g : α → Option β} {as : List α}
    (h : ∀ a ∈ as, ∀ b, f a = some b → g a = some b) :
    (as.filterMap f).Sublist (as.filterMap g) := by
  induction as with
  | nil => exact .slnil
  | cons a as ih =>
    obtain ⟨hHead, hTail⟩ := List.forall_mem_cons.mp h
    rw [List.filterMap_cons, List.filterMap_cons]
    cases hf : f a with
    | none =>
      cases g a with
      | none => exact ih hTail
      | some b => exact .cons b (ih hTail)
    | some b =>
      rw [hHead b hf]
      exact .cons_cons b (ih hTail)

theorem HandleEvent.numbered?_of_kept? {event : HandleEvent} {entry : DocumentId × String}
    (h : event.kept? = some entry) : event.numbered? = some entry.1 := by
  obtain ⟨handle, call, answer⟩ := event
  unfold kept? at h
  split at h
  · obtain ⟨text, -, rfl⟩ := Option.map_eq_some_iff.mp h
    simp_all [numbered?]
  · cases h

theorem keptTexts_numbers_sublist (events : List HandleEvent) :
    ((keptTexts events).map Prod.fst).Sublist (documentNumbers events) := by
  rw [keptTexts, List.map_filterMap]
  apply filterMap_sublist_filterMap
  intro event _ number hNumber
  obtain ⟨entry, hKept, rfl⟩ := Option.map_eq_some_iff.mp hNumber
  exact HandleEvent.numbered?_of_kept? hKept

namespace History

variable {events : List HandleEvent} {store : SourceStore} {handle : HandleId}

theorem takeSources_only (h : History events store) (hOnly : liveHandles events = [handle]) :
    (store.takeSources handle).1 = .ok (keptTexts events) := by
  have hLive : store.live = [handle] := h.recorded.handles.live.trans hOnly
  have hErase : store.live.erase handle = [] := by simp [hLive]
  have hKept := h.recorded.texts.kept (by simp [hLive])
  rw [store.takeSources_of_erase_eq_nil handle hErase, hKept]

theorem takeSources_shared (h : History events store) (hMem : handle ∈ liveHandles events)
    (hOnly : liveHandles events ≠ [handle]) :
    store.takeSources handle =
      (.error .sharedSources, { store with live := (liveHandles events).filter (· != handle) }) := by
  have hLive := h.recorded.handles.live
  have hNodup := h.recorded.handles.live_nodup
  have hErase : store.live.erase handle ≠ [] := by
    intro hNil
    rw [hLive] at hNil
    have hPerm := List.perm_cons_erase hMem
    rw [hNil] at hPerm
    exact hOnly (List.perm_singleton.mp hPerm)
  rw [store.takeSources_of_erase_ne_nil handle hErase, SourceStore.release, hLive,
    hNodup.erase_eq_filter]

/-- If all other live handles try first, in any order, the last one still gets everything. -/
theorem takeSources_last (h : History events store) {others : List HandleId}
    (hPerm : (handle :: others).Perm (liveHandles events)) :
    ((others.foldl (fun store other => (store.takeSources other).2) store).takeSources handle).1 =
      .ok (keptTexts events) := by
  induction others generalizing events store with
  | nil => exact h.takeSources_only (List.singleton_perm.mp hPerm).symm
  | cons other others ih =>
    have hMem : other ∈ liveHandles events := hPerm.subset (by simp)
    have hAfter := h.call other hMem .takeSources
    have hLeft : (handle :: others).Perm (liveHandles (events ++
        [⟨other, .takeSources, (store.perform other .takeSources).1⟩])) := by
      have hErase := ((List.Perm.swap handle other others).trans hPerm).erase other
      rw [List.erase_cons_head, h.recorded.handles.live_nodup.erase_eq_filter] at hErase
      rw [liveHandles_concat_ended rfl rfl]
      exact hErase
    have hKept := ih hAfter hLeft
    rw [keptTexts_concat] at hKept
    exact hKept.trans (congrArg _ (List.append_nil _))

end History

/-- After any history the texts can be taken through a live handle exactly if it is the only one, and
they are those of all parses that succeeded with the flag set, each under the number that its parse
has given. A handle that shares the store fails and is released, nothing else changes, and so the
last one gets everything. A parse fails only on bytes that are no text, and then changes nothing. -/
theorem takeSources_of_history {events : List HandleEvent} {store : SourceStore}
    (h : History events store) :
    (∀ handle ∈ liveHandles events,
      ((∃ texts, (store.takeSources handle).1 = .ok texts) ↔ liveHandles events = [handle]) ∧
      (liveHandles events = [handle] → (store.takeSources handle).1 = .ok (keptTexts events)) ∧
      (liveHandles events ≠ [handle] → store.takeSources handle =
        (.error .sharedSources,
          { store with live := (liveHandles events).filter (· != handle) })) ∧
      ∀ others : List HandleId, (handle :: others).Perm (liveHandles events) →
        ((others.foldl (fun store other => (store.takeSources other).2) store).takeSources
          handle).1 = .ok (keptTexts events)) ∧
    (documentNumbers events).Nodup ∧
    (∀ id text, (keptTexts events).lookup id = some text ↔
      ∃ event ∈ events, event.kept? = some (id, text)) ∧
    ∀ bytes path keep,
      ((∃ document, (store.parse bytes path keep).1 = .ok document) ↔
        ∃ text, String.fromUTF8? bytes = some text) ∧
      (String.fromUTF8? bytes = none → store.parse bytes path keep =
        (.error (.io (path.getD anonymousPath) .invalidText), store)) := by
  have hNumbers := h.recorded.texts.numbers_nodup
  refine ⟨?_, hNumbers, ?_, ?_⟩
  · intro handle hMem
    refine ⟨⟨?_, ?_⟩, h.takeSources_only, h.takeSources_shared hMem, ?_⟩
    · rintro ⟨texts, hTexts⟩
      by_contra hOnly
      rw [h.takeSources_shared hMem hOnly] at hTexts
      cases hTexts
    · intro hOnly
      exact ⟨_, h.takeSources_only hOnly⟩
    · intro others hPerm
      exact h.takeSources_last hPerm
  · intro id text
    rw [lookup_eq_some_iff_mem (hNumbers.sublist (keptTexts_numbers_sublist events)), keptTexts,
      List.mem_filterMap]
  · intro bytes path keep
    refine ⟨?_, store.parse_of_none path keep⟩
    cases hText : String.fromUTF8? bytes with
    | none => simp [store.parse_of_none path keep hText]
    | some text => simp [store.parse_of_some path keep hText]

/-- A failed parse, a text that is not kept and a failed attempt to take the texts come before. -/
theorem takeSources_of_history_attempt :
    ∃ events store, History events store ∧ events.length = 5 ∧ liveHandles events = [1] ∧
      (store.takeSources 1).1 = .ok [(0, "a")] := by
  have hCloned := History.fresh.call 0 (by decide) .clone
  have hKept := hCloned.call 1 (by decide) (.parse ⟨#[97]⟩ none true)
  have hFailed := hKept.call 0 (by decide +kernel) (.parse ⟨#[255]⟩ none true)
  have hPassed := hFailed.call 0 (by decide +kernel) (.parse ⟨#[98]⟩ none false)
  have hShared := hPassed.call 0 (by decide +kernel) .takeSources
  refine ⟨_, _, hShared, rfl, by decide +kernel, ?_⟩
  have hTaken := (takeSources_of_history hShared).1 1 (by decide +kernel)
  exact (hTaken.2.1 (by decide +kernel)).trans (by decide +kernel)

end TagLint
