import Bluetalk.Chat.Client
import Bluetalk.Theory.Run

/-!
# Edits of a message

`applyInboundChatEdit` of `applyInboundChatEdit.js` compares an edit with a copy of the message that
is loaded, or read from the store, and has a patch made. The patch is stored and then loaded later,
so that another edit may be compared in between.
-/

open List Option

namespace Bluetalk.Chat
open CloudAccount Storage

/-- A message with the valid edits of it that have arrived. `recent` tells whether it is among the
stored messages that are searched if it is not loaded. -/
structure EditedMessage where
  copies : MessageCopies Unit
  recent : Bool
  edits : List MessageEdit := []

inductive EditAction
  | arrive (now : Int) (fromId : String) (payload : Json) (isGroup : Bool)
  /-- The `k`-th patch in flight comes to its next step. -/
  | land (k : Nat)

/-- A valid edit of the message `m` by its author -/
def validEdit (m : Message) (now : Int) (fromId : String) (payload : Json) (isGroup : Bool) :
    Option MessageEdit :=
  (validateMessageEditPayload payload).toOption.filter fun edit =>
    m.field "messageId" = .str edit.refMessageId && editorOwnsOriginal m fromId isGroup &&
      m.field "kind" = .str "chat" && 0 < (m.field "timestamp").toNumber &&
      edit.editedAt - (m.field "timestamp").toNumber ≤ messageEditWindowMs &&
      edit.editedAt ≤ now + 5 * 60 * 1000

namespace EditedMessage

/-- What `applyInboundChatEdit` asks for -/
def requested (s : EditedMessage) (now : Int) (fromId : String) (payload : Json) (isGroup : Bool) :
    Option (List (String × Json)) :=
  match applyInboundMessageEdit none payload now true with
  | .error _ | .ok (.skipped _) => none
  | .ok (.patched ref _) =>
    let found := s.copies.loaded.or (if s.recent then s.copies.stored else none)
    match found.filter fun m => m.field "messageId" = .str ref with
    | none => none
    | some existing =>
      match applyInboundMessageEdit (some existing) payload now
          (editorOwnsOriginal existing fromId isGroup) with
      | .error _ | .ok (.skipped _) => none
      | .ok (.patched _ patch) => some patch

def step (m : Message) (s : EditedMessage) : EditAction → Option EditedMessage
  | .arrive now fromId payload isGroup =>
    some { s with
      copies := match s.requested now fromId payload isGroup with
        | some patch => s.copies.issue () patch
        | none => s.copies
      edits := s.edits ++ (validEdit m now fromId payload isGroup).toList }
  | .land k => (s.copies.land k false).map fun r => { s with copies := r.1 }

def start (m : Message) (isLoaded recent : Bool) : EditedMessage where
  copies := ⟨some m, if isLoaded then some m else none, []⟩
  recent := recent

/-- The edit that is to be seen -/
def Latest (edits : List MessageEdit) : Option MessageEdit → Prop
  | none => edits = []
  | some e => e ∈ edits ∧ 0 < e.editedAt ∧ ∀ e' ∈ edits, e'.editedAt ≤ e.editedAt

/-- `x` is the message `m` with an edit. -/
def Shows (m : Message) (edit : Option MessageEdit) (x : Message) : Prop :=
  (∀ k, k ∉ (["content", "editedAt", "edited"] : List String) → x.field k = m.field k) ∧
    x.field "content" = edit.elim (m.field "content") (.str ·.content) ∧
    x.field "editedAt" = edit.elim (m.field "editedAt") (.num ·.editedAt)

/-- When nothing is in flight, the stored message shows the latest of its edits. -/
def Converged (m : Message) (s : EditedMessage) : Prop :=
  s.copies.patches = [] → ∃ edit x, Latest s.edits edit ∧ s.copies.stored = some x ∧ Shows m edit x

/-- What is no edit of the author changes nothing. -/
def OnlyAuthor (m : Message) (s : EditedMessage) (a : EditAction) (s' : EditedMessage) : Prop :=
  ∀ now fromId payload isGroup, a = .arrive now fromId payload isGroup →
    editorOwnsOriginal m fromId isGroup = false → s'.copies = s.copies

/-- An edit arrives when none is in flight, and the message is found. -/
def Alone (s : EditedMessage) : EditAction → Bool
  | .arrive .. => s.copies.patches.isEmpty && (s.copies.loaded.isSome || s.recent)
  | .land _ => true

/-- The copies, with the edit that is in flight at most -/
inductive Inv (m : Message) : EditedMessage → Prop
  | rest {edit s x} (latest : Latest s.edits edit) (stored : s.copies.stored = some x)
      (shown : Shows m edit x) (loaded : ∀ y ∈ s.copies.loaded, Shows m edit y)
      (patches : s.copies.patches = []) : Inv m s
  | storing {edit old s x} (latest : Latest s.edits (some edit)) (stored : s.copies.stored = some x)
      (shown : Shows m old x) (loaded : ∀ y ∈ s.copies.loaded, Shows m old y)
      (patches : s.copies.patches = [⟨(), editPatch edit, false⟩]) : Inv m s
  | loading {edit old s x} (latest : Latest s.edits (some edit)) (stored : s.copies.stored = some x)
      (shown : Shows m (some edit) x) (loaded : ∀ y ∈ s.copies.loaded, Shows m old y)
      (patches : s.copies.patches = [⟨(), editPatch edit, true⟩]) : Inv m s

variable {m x : Message} {s s' : EditedMessage} {edit : Option MessageEdit} {e : MessageEdit}
  {a : EditAction} {as : List EditAction} {now : Int} {fromId : String} {payload : Json}
  {isGroup : Bool} {edits : List MessageEdit}

theorem Shows.withPatch (h : Shows m edit x) : Shows m (some e) (Chat.withPatch (editPatch e) x) := by
  refine ⟨fun k hk => ?_, ?_, ?_⟩
  · simp only [mem_cons, not_mem_nil, or_false, not_or] at hk
    rw [field_withPatch, patchedField, editPatch]
    simp [Ne.symm hk.1, Ne.symm hk.2.1, Ne.symm hk.2.2, h.1 k (by simp [hk])]
  · simp [field_withPatch, patchedField, editPatch]
  · simp [field_withPatch, patchedField, editPatch]

theorem patchMessage_editPatch : patchMessage x (editPatch e) = Chat.withPatch (editPatch e) x := by
  simp [patchMessage, Chat.withPatch, editPatch]

theorem Shows.owns (h : Shows m edit x) :
    editorOwnsOriginal x fromId isGroup = editorOwnsOriginal m fromId isGroup := by
  rw [editorOwnsOriginal, editorOwnsOriginal, h.1 _ (by decide), h.1 _ (by decide)]

/-- An edit is made into a patch if it is valid and later than the one that is shown. -/
theorem requested_eq (hshown : Shows m edit x)
    (hfound : s.copies.loaded.or (if s.recent then s.copies.stored else none) = some x) :
    s.requested now fromId payload isGroup =
      ((validEdit m now fromId payload isGroup).filter fun e =>
        !(0 < (x.field "editedAt").toNumber && e.editedAt ≤ (x.field "editedAt").toNumber)).map
        editPatch := by
  rw [requested, validEdit]
  cases hpayload : validateMessageEditPayload payload with
  | error =>
    rw [applyInboundMessageEdit, hpayload]
    rfl
  | ok e =>
    have hid := hshown.1 "messageId" (by decide)
    have hcopy : ∀ owns, applyInboundMessageEdit (some x) payload now owns =
        if owns = false then .error "sender_mismatch"
        else if m.field "kind" ≠ .str "chat" then .error "not_text"
        else if (m.field "timestamp").toNumber ≤ 0 then .error "no_timestamp"
        else if messageEditWindowMs < e.editedAt - (m.field "timestamp").toNumber then
          .error "window_expired"
        else if 0 < (x.field "editedAt").toNumber ∧ e.editedAt ≤ (x.field "editedAt").toNumber then
          .ok (.skipped e.refMessageId)
        else if now + 5 * 60 * 1000 < e.editedAt then .error "edited_in_future"
        else .ok (.patched e.refMessageId (editPatch e)) := by
      intro owns
      rw [applyInboundMessageEdit, hpayload, ← hshown.1 "kind" (by decide),
        ← hshown.1 "timestamp" (by decide)]
      cases owns <;> rfl
    have halone : applyInboundMessageEdit none payload now true =
        if now + 5 * 60 * 1000 < e.editedAt then .error "edited_in_future"
        else .ok (.patched e.refMessageId (editPatch e)) := by
      rw [applyInboundMessageEdit, hpayload]
      rfl
    rw [halone]
    simp only [Except.toOption, filter_some, Bool.and_eq_true, decide_eq_true_eq]
    by_cases hfuture : now + 5 * 60 * 1000 < e.editedAt
    · rw [if_pos hfuture]
      dsimp only
      rw [if_neg fun h => absurd h.2 (not_le.mpr hfuture)]
      rfl
    rw [if_neg hfuture]
    dsimp only
    rw [hfound, filter_some, hid]
    by_cases href : m.field "messageId" = .str e.refMessageId
    · rw [if_pos (decide_eq_true href)]
      dsimp only
      rw [hcopy, hshown.owns]
      split_ifs <;> simp_all
      all_goals omega
    · rw [if_neg (by simpa using href), if_neg fun h => href h.1.1.1.1.1]
      rfl

theorem editedAt_pos (h : validEdit m now fromId payload isGroup = some e) : 0 < e.editedAt := by
  obtain ⟨h, -⟩ := filter_eq_some_iff.mp h
  rw [validateMessageEditPayload] at h
  cases hcontent : payload.get "content" with
  | str content =>
    simp only [hcontent] at h
    split_ifs at h with h₁ h₂ h₃ h₄ h₅
    all_goals cases h
    exact not_le.mp h₅
  | _ =>
    simp only [hcontent] at h
    split_ifs at h
    all_goals cases h

/-- An edit is the latest one if it is later than the one that is shown. -/
theorem Shows.latest (hm : (m.field "editedAt").toNumber ≤ 0) (hshown : Shows m edit x)
    (hlatest : Latest edits edit) (he : 0 < e.editedAt) :
    Latest (edits ++ [e])
      (if 0 < (x.field "editedAt").toNumber ∧ e.editedAt ≤ (x.field "editedAt").toNumber then edit
        else some e) := by
  rw [hshown.2.2]
  cases edit with
  | none =>
    obtain rfl : edits = [] := hlatest
    rw [if_neg fun h => absurd h.1 (not_lt.mpr hm)]
    exact ⟨mem_singleton_self e, he, fun e' he' => by rw [mem_singleton.mp he']⟩
  | some old =>
    obtain ⟨hmem, hpos, hmax⟩ := hlatest
    change Latest _ (if 0 < old.editedAt ∧ e.editedAt ≤ old.editedAt then some old else some e)
    split_ifs with h
    · refine ⟨mem_append_left _ hmem, hpos, fun e' he' => ?_⟩
      obtain he' | he' := mem_append.mp he'
      · exact hmax e' he'
      · exact mem_singleton.mp he' ▸ h.2
    have hlater : old.editedAt < e.editedAt := by omega
    refine ⟨mem_append_right _ (mem_singleton_self e), he, fun e' he' => ?_⟩
    obtain he' | he' := mem_append.mp he'
    · exact (hmax e' he').trans hlater.le
    · rw [mem_singleton.mp he']

theorem Inv.arrive (hm : (m.field "editedAt").toNumber ≤ 0)
    (halone : s.Alone (.arrive now fromId payload isGroup) = true) (H : Inv m s)
    (hstep : s.step m (.arrive now fromId payload isGroup) = some s') :
    Inv m s' ∧ (editorOwnsOriginal m fromId isGroup = false → s'.copies = s.copies) := by
  obtain ⟨hpatches, hfound⟩ := Bool.and_eq_true_iff.mp halone
  replace hpatches := isEmpty_iff.mp hpatches
  obtain @⟨edit, _, x, latest, stored, shown, loaded, -⟩ | ⟨_, _, _, _, h⟩ | ⟨_, _, _, _, h⟩ := H
  rotate_left
  · cases hpatches ▸ h
  · cases hpatches ▸ h
  obtain ⟨y, hy, hshown⟩ : ∃ y, s.copies.loaded.or (if s.recent then s.copies.stored else none) =
      some y ∧ Shows m edit y := by
    cases hloaded : s.copies.loaded with
    | some y => exact ⟨y, rfl, loaded y hloaded⟩
    | none =>
      rw [hloaded, isSome_none, Bool.false_or] at hfound
      exact ⟨x, by rw [if_pos hfound, none_or, stored], shown⟩
  cases hvalid : validEdit m now fromId payload isGroup with
  | none =>
    rw [EditedMessage.step, requested_eq hshown hy, hvalid] at hstep
    cases hstep
    refine ⟨.rest ?_ stored shown loaded hpatches, fun _ => rfl⟩
    rwa [toList_none, append_nil]
  | some e =>
    have hlatest := hshown.latest hm latest (editedAt_pos hvalid)
    rw [EditedMessage.step, requested_eq hshown hy, hvalid, filter_some] at hstep
    refine ⟨?_, fun howns => ?_⟩
    · by_cases h : 0 < (y.field "editedAt").toNumber ∧
          e.editedAt ≤ (y.field "editedAt").toNumber
      · rw [if_pos h] at hlatest
        rw [if_neg (by simpa using h)] at hstep
        cases hstep
        exact .rest hlatest stored shown loaded hpatches
      · rw [if_neg h] at hlatest
        rw [if_pos (by simpa [or_iff_not_imp_left] using h)] at hstep
        cases hstep
        exact .storing hlatest stored shown loaded (congrArg (· ++ _) hpatches)
    · obtain ⟨-, h⟩ := filter_eq_some_iff.mp hvalid
      simp [howns] at h

theorem Inv.land {k : Nat} (H : Inv m s) (hstep : s.step m (.land k) = some s') : Inv m s' := by
  obtain ⟨⟨copies, landed⟩, hland, rfl⟩ := map_eq_some_iff.mp hstep
  rw [MessageCopies.land] at hland
  cases H with
  | rest _ _ _ _ hpatches =>
    rw [hpatches] at hland
    cases hland
  | storing latest stored shown loaded hpatches =>
    rw [hpatches] at hland
    obtain _ | k := k
    · cases hland
      refine .loading latest ?_ shown.withPatch loaded rfl
      rw [stored]
      exact congrArg some patchMessage_editPatch
    · cases hland
  | loading latest stored shown loaded hpatches =>
    rw [hpatches] at hland
    obtain _ | k := k
    · cases hland
      refine .rest latest stored shown (fun y hy => ?_) rfl
      obtain ⟨z, hz, rfl⟩ := map_eq_some_iff.mp hy
      exact (loaded z hz).withPatch
    · cases hland

theorem Inv.step (hm : (m.field "editedAt").toNumber ≤ 0) (halone : s.Alone a = true)
    (H : Inv m s) (hstep : s.step m a = some s') : Inv m s' ∧ OnlyAuthor m s a s' := by
  cases a with
  | arrive =>
    obtain ⟨hinv, honly⟩ := H.arrive hm halone hstep
    refine ⟨hinv, ?_⟩
    rintro _ _ _ _ ⟨⟩
    exact honly
  | land k =>
    refine ⟨H.land hstep, ?_⟩
    rintro _ _ _ _ ⟨⟩

theorem Inv.start {isLoaded recent : Bool} : Inv m (start m isLoaded recent) := by
  have hshown : Shows m none m := ⟨fun _ _ => rfl, rfl, rfl⟩
  refine @Inv.rest m none _ m rfl rfl hshown (fun y hy => ?_) rfl
  cases isLoaded
  · cases hy
  · cases hy
    exact hshown

theorem Inv.converged (H : Inv m s) : Converged m s := by
  intro hpatches
  cases H with
  | @rest edit _ x latest stored shown => exact ⟨edit, x, latest, stored, shown⟩
  | storing _ _ _ _ h => cases hpatches ▸ h
  | loading _ _ _ _ h => cases hpatches ▸ h

def sent : Message :=
  .ofFields [("messageId", .str "m"), ("kind", .str "chat"), ("from", .str "bob"),
    ("timestamp", .num 1)]

def arriving (editedAt : Int) (content : String) : EditAction :=
  .arrive 100 "bob" (.obj [("kind", .str messageEditKind), ("refMessageId", .str "m"),
    ("content", .str content), ("editedAt", .num editedAt)]) false

end EditedMessage
end Bluetalk.Chat
