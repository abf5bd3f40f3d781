import Bluetalk.WebBridge.TunnelCleanup
import Mathlib.Data.List.Perm.Subperm

/-!
# The requests of the web client

`startOpen` and `postMail` return a promise that a table keeps until the relay answers, and after
an `opened` the handshake of the tunnel keeps it. What is proved here is that no promise is lost on
its way: every one that is not settled is kept at one place, from which its own answer or the end
of the connection will settle it.
-/

open List Option

namespace Bluetalk.WebBridge

/-- The promise that the end of `attachTunnel` will settle. -/
def Binding.awaited (x : Binding) : Option Nat :=
  if x.phase = .done then none else x.follows.map Prod.fst

def PendingOpen.key (pending : PendingOpen) : String × String := (pending.peerId, pending.deviceKey)

namespace RelayClient

def unsettled (s : RelayClient) (q : Nat) : Bool := (s.promises[q]?).any (·.outcome.isNone)

/-- The promises that the tables keep. -/
def tabled (s : RelayClient) : List Nat :=
  s.pendingOpen.map (·.2.promise) ++ s.pendingPost.map Prod.snd

/-- All promises that something is to settle. -/
def held (s : RelayClient) : List Nat := s.tabled ++ s.bindings.filterMap Binding.awaited

/-- `attachTunnel` has its result, or waits for frames that the connection can bring. -/
def underWay (s : RelayClient) (x : Binding) : Bool :=
  match x.phase with
  | .naming | .shaking _ => s.serving && x.connection = s.connection
  | .failing | .established => true
  | .done => false

/-- No request is left hanging. -/
structure NoneHanging (s : RelayClient) : Prop where
  keys : ∀ k, k ∈ s.openingKeys ↔ k ∈ s.pendingOpen.map (·.2.key)
  /-- An unsettled promise waits for the answer to its request on a connection that goes on, or it
  was answered and waits for the handshake that was begun for it. -/
  waits : ∀ q, s.unsettled q = true →
    s.serving = true ∧ q ∈ s.tabled ∧ q ∉ s.answers ∨
      ∃ x ∈ s.bindings, x.follows = some (q, q) ∧ q ∈ s.answers ∧ s.underWay x = true
  /-- Nothing is to settle a promise that is settled, nor a promise twice. -/
  once : s.held.Nodup ∧ ∀ q ∈ s.held, s.unsettled q = true
  /-- An answer settles the promise of its own request. -/
  own : ∀ q p r, s.promises[q]? = some p → p.outcome = some (.answered r) → r = q ∧ q ∈ s.answers

/-- Requests that will be settled: a mail is posted and a tunnel opened while the connection goes
on, a mail under another id than those that wait, and when the connection ends, handshakes begun for
an answer have their transport in the table of tunnels, with no part of a frame in it. -/
def settlesAll (s : RelayClient) : ClientAction → Bool
  | .postMail peerId body id uuid =>
    !s.takesMail peerId body ||
      (s.serving && s.pendingPost.all fun m => m.1 ≠ mailPostId id uuid)
  | .openPeer peerId deviceId =>
    s.serving || !s.online || jsTrim peerId = "" || s.maxTunnels = 0 ||
      s.sessionOccupied (jsTrim peerId) (deviceId.getD "")
  | .tearDown => s.bindings.zipIdx.all fun (x, b) =>
    x.follows.isNone ||
      match x.phase with
      | .naming | .shaking true => false
      | .shaking false => s.tunnels.any fun t => t.2.binding = b
      | .failing | .established | .done => true
  | _ => true

variable {own : String} {s s' s₁ : RelayClient} {b q : Nat} {x : Binding} {l l' : List Nat}
  {p p' : Nat → Bool} {r id tunnelId k request : Nat} {outcome : Outcome} {f : Binding → Binding}
  {key peerId target : String} {α κ : Type} {deviceId : Option String}

/-! ## Promises -/

/-- The list has what has the property, each once. -/
def Lists (l : List Nat) (p : Nat → Bool) : Prop := l.Nodup ∧ ∀ q, q ∈ l ↔ p q = true

theorem Lists.insert (H : Lists l p) (hq : p q = false)
    (hl : l'.Perm (q :: l)) (hp : ∀ r, p' r = (p r || decide (r = q))) : Lists l' p' := by
  refine ⟨hl.nodup_iff.mpr (nodup_cons.mpr ⟨fun h => ?_, H.1⟩), fun r => ?_⟩
  · rw [(H.2 q).mp h] at hq
    cases hq
  · rw [hl.mem_iff, mem_cons, H.2, hp, Bool.or_eq_true, decide_eq_true_eq, or_comm]

theorem Lists.remove (H : Lists l p)
    (hl : l.Perm (q :: l')) (hp : ∀ r, p' r = (p r && decide (r ≠ q))) : Lists l' p' := by
  obtain ⟨hq, hnodup⟩ := nodup_cons.mp (hl.nodup_iff.mp H.1)
  refine ⟨hnodup, fun r => ?_⟩
  rw [hp, Bool.and_eq_true, decide_eq_true_eq, ← H.2, hl.mem_iff, mem_cons]
  constructor
  · intro hr
    exact ⟨.inr hr, fun h => hq (h ▸ hr)⟩
  · rintro ⟨rfl | hr, hne⟩
    · exact absurd rfl hne
    · exact hr

theorem Lists.drop (H : Lists (l ++ l') p)
    (hp : ∀ r, p' r = (p r && decide (r ∉ l))) : Lists l' p' := by
  obtain ⟨-, hnodup, hdisj⟩ := nodup_append.mp H.1
  refine ⟨hnodup, fun r => ?_⟩
  rw [hp, Bool.and_eq_true, decide_eq_true_eq, ← H.2, mem_append]
  constructor
  · intro hr
    exact ⟨.inr hr, fun h => hdisj r h r hr rfl⟩
  · rintro ⟨hl | hr, hne⟩
    · exact absurd hl hne
    · exact hr

theorem unsettled_settle :
    (s.settle q outcome).unsettled r = (s.unsettled r && decide (r ≠ q)) := by
  rw [unsettled, unsettled, settle, getElem?_modify]
  cases s.promises[r]? with
  | none => rfl
  | some p =>
    rw [Option.map_eq_map, Option.map_some, Option.any_some, Option.any_some]
    split
    next hr =>
      rw [decide_eq_false (not_not.mpr hr.symm), Bool.and_false]
      cases p.outcome <;> rfl
    next hr => rw [decide_eq_true (Ne.symm hr), Bool.and_true]

theorem unsettled_of_le (h : s.promises.length ≤ q) : s.unsettled q = false := by
  rw [unsettled, getElem?_eq_none h]
  rfl

theorem unsettled_newPromise {request : Request} {outcome : Option Outcome} :
    (s.newPromise request outcome).unsettled r =
      (s.unsettled r || (outcome.isNone && decide (r = s.promises.length))) := by
  rw [unsettled, unsettled, newPromise]
  rcases Nat.lt_trichotomy r s.promises.length with hr | hr | hr
  · rw [getElem?_append_left hr, decide_eq_false (Nat.ne_of_lt hr), Bool.and_false, Bool.or_false]
  · rw [hr, getElem?_concat_length, getElem?_eq_none (Nat.le_refl _),
      decide_eq_true rfl, Bool.and_true]
    rfl
  rw [decide_eq_false (Nat.ne_of_gt hr), Bool.and_false, Bool.or_false,
    getElem?_eq_none (Nat.le_of_lt hr), getElem?_eq_none]
  rw [length_append]
  exact hr

/-- Answers settle the promises of their own requests. -/
def Own (s : RelayClient) : Prop :=
  ∀ q p r, s.promises[q]? = some p → p.outcome = some (.answered r) → r = q ∧ q ∈ s.answers

theorem Own.settle (H : s.Own)
    (h : ∀ r, outcome = .answered r → r = q ∧ q ∈ s.answers) : (s.settle q outcome).Own := by
  intro q' p r hp hr
  rw [RelayClient.settle, getElem?_modify] at hp
  obtain ⟨p', hp', rfl⟩ := map_eq_some_iff.mp hp
  split at hr
  next hq =>
    subst hq
    cases hout : p'.outcome with
    | none =>
      rw [hout] at hr
      exact h r (some.inj hr)
    | some o =>
      rw [hout] at hr
      exact H q p' r hp' (hout.trans hr)
  next => exact H q' p' r hp' hr

theorem Own.newPromise {request : Request} {outcome : Option Outcome} (H : s.Own)
    (h : ∀ r, outcome ≠ some (.answered r)) : (s.newPromise request outcome).Own := by
  intro q p r hp hr
  rw [RelayClient.newPromise] at hp
  rcases Nat.lt_or_ge q s.promises.length with hq | hq
  · rw [getElem?_append_left hq] at hp
    exact H q p r hp hr
  · rw [getElem?_append_right hq] at hp
    rw [mem_singleton.mp (mem_of_getElem? hp)] at hr
    exact absurd hr (h r)

theorem Own.mono (H : s.Own) (hpromises : s'.promises = s.promises)
    (hans : s.answers ⊆ s'.answers) : s'.Own := fun q p r hp hr =>
  (H q p r (hpromises ▸ hp) hr).imp_right fun hq => hans hq

/-! ## The invariant -/

/-- What the tables of requests are about. -/
structure Entries (s : RelayClient) : Prop where
  keys : s.openingKeys = s.pendingOpen.map (·.2.key)
  keysOnce : s.openingKeys.Nodup
  ids : (s.pendingOpen.map Prod.fst).Nodup
  few : s.pendingOpen.length ≤ maxPendingOpens
  mails : (s.pendingPost.map Prod.fst).Nodup
  opens : ∀ m ∈ s.openRequests, ∃ p, (m.1, p) ∈ s.pendingOpen ∧ p.promise = m.2
  opensOnce : (s.openRequests.map Prod.fst).Nodup
  posts : ∀ m ∈ s.postRequests, m ∈ s.pendingPost
  postsOnce : (s.postRequests.map Prod.fst).Nodup
  idle : s.serving = false →
    s.pendingOpen = [] ∧ s.pendingPost = [] ∧ s.tunnels = [] ∧ s.remoteDevices = []

structure Settling (s : RelayClient) : Prop where
  entries : s.Entries
  lists : Lists s.held s.unsettled
  answered : ∀ q ∈ s.answers, q < s.promises.length ∧ q ∉ s.tabled
  own : s.Own
  followed : ∀ x ∈ s.bindings, ∀ q r, x.follows = some (q, r) → r = q ∧ q ∈ s.answers
  alive : ∀ x ∈ s.bindings, x.awaited ≠ none → s.underWay x = true

theorem Settling.empty : Settling {} where
  entries := by constructor <;> first | exact nodup_nil | simp
  lists := ⟨nodup_nil, fun _ => ⟨fun h => absurd h not_mem_nil, Bool.noConfusion⟩⟩
  answered _ h := absurd h not_mem_nil
  own _ _ _ h := by cases h
  followed _ h := absurd h not_mem_nil
  alive _ h := absurd h not_mem_nil

theorem awaited_eq_some : x.awaited = some q ↔ x.phase ≠ .done ∧ ∃ r, x.follows = some (q, r) := by
  rw [Binding.awaited]
  split
  next hdone =>
    constructor
    · intro h
      cases h
    · exact fun h => absurd hdone h.1
  next hphase =>
  rw [map_eq_some_iff]
  constructor
  · rintro ⟨⟨q', r⟩, hfollows, rfl⟩
    exact ⟨hphase, r, hfollows⟩
  · rintro ⟨-, r, hfollows⟩
    exact ⟨(q, r), hfollows, rfl⟩

theorem Settling.serving_of_mem (H : s.Settling) (hq : q ∈ s.tabled) : s.serving = true := by
  by_contra hserving
  obtain ⟨hopens, hposts, -⟩ := H.entries.idle ((Bool.not_eq_true _).mp hserving)
  rw [tabled, hopens, hposts] at hq
  cases hq

theorem Settling.noneHanging (H : s.Settling) : s.NoneHanging where
  keys k := by rw [H.entries.keys]
  waits q hq := by
    rcases mem_append.mp ((H.lists.2 q).mpr hq) with htable | hbinding
    · exact .inl ⟨H.serving_of_mem htable, htable, fun hans => (H.answered q hans).2 htable⟩
    obtain ⟨x, hx, hawaited⟩ := mem_filterMap.mp hbinding
    obtain ⟨-, r, hfollows⟩ := awaited_eq_some.mp hawaited
    obtain ⟨rfl, hans⟩ := H.followed x hx q r hfollows
    refine .inr ⟨x, hx, hfollows, hans, H.alive x hx ?_⟩
    rw [hawaited]
    exact some_ne_none _
  once := ⟨H.lists.1, fun q => (H.lists.2 q).mp⟩
  own := H.own

/-! ## Steps that no request is in -/

/-- The requests stay where they are, and what is under way stays so. -/
structure Calm (s s' : RelayClient) : Prop where
  promises : s'.promises = s.promises
  answers : s'.answers = s.answers
  openingKeys : s'.openingKeys = s.openingKeys
  pendingOpen : s'.pendingOpen = s.pendingOpen
  pendingPost : s'.pendingPost = s.pendingPost
  openRequests : s'.openRequests = s.openRequests
  postRequests : s'.postRequests = s.postRequests
  idle : (s.serving = false → s.tunnels = [] ∧ s.remoteDevices = []) → s'.serving = false →
    s.serving = false ∧ s'.tunnels = [] ∧ s'.remoteDevices = []
  awaited : s'.bindings.filterMap Binding.awaited = s.bindings.filterMap Binding.awaited
  bindings : ∀ y ∈ s'.bindings, y.follows = none ∨ ∃ x ∈ s.bindings, y.follows = x.follows ∧
    (y.phase = .done ∨ x.phase ≠ .done ∧ (s.underWay x = true → s'.underWay y = true))

theorem Settling.of_calm (H : s.Settling) (h : s.Calm s') : s'.Settling := by
  have htabled : s'.tabled = s.tabled := by rw [tabled, tabled, h.pendingOpen, h.pendingPost]
  have hheld : s'.held = s.held := by rw [held, held, htabled, h.awaited]
  have hunsettled : s'.unsettled = s.unsettled := by
    funext q
    rw [unsettled, unsettled, h.promises]
  constructor
  case entries =>
    constructor
    case idle =>
      intro hserving
      have hidle := h.idle (fun hs => (H.entries.idle hs).2.2) hserving
      obtain ⟨hopens, hposts, -⟩ := H.entries.idle hidle.1
      exact ⟨h.pendingOpen.trans hopens, h.pendingPost.trans hposts, hidle.2⟩
    all_goals simp only [h.openingKeys, h.pendingOpen, h.pendingPost, h.openRequests, h.postRequests]
    · exact H.entries.keys
    · exact H.entries.keysOnce
    · exact H.entries.ids
    · exact H.entries.few
    · exact H.entries.mails
    · exact H.entries.opens
    · exact H.entries.opensOnce
    · exact H.entries.posts
    · exact H.entries.postsOnce
  case lists =>
    rw [hheld, hunsettled]
    exact H.lists
  case answered =>
    rw [h.answers, h.promises, htabled]
    exact H.answered
  case own =>
    intro q p r hp
    rw [h.answers]
    exact H.own q p r (h.promises ▸ hp)
  case followed =>
    intro y hy q r hfollows
    rcases h.bindings y hy with hnone | ⟨x, hx, heq, -⟩
    · rw [hnone] at hfollows
      cases hfollows
    · rw [h.answers]
      exact H.followed x hx q r (heq ▸ hfollows)
  case alive =>
    intro y hy hawaited
    obtain ⟨q, hq⟩ := ne_none_iff_exists'.mp hawaited
    obtain ⟨hphase, r, hfollows⟩ := awaited_eq_some.mp hq
    rcases h.bindings y hy with hnone | ⟨x, hx, heq, hdone | ⟨hx', halive⟩⟩
    · rw [hnone] at hfollows
      cases hfollows
    · exact absurd hdone hphase
    · refine halive (H.alive x hx ?_)
      rw [awaited_eq_some.mpr ⟨hx', r, heq ▸ hfollows⟩]
      exact some_ne_none _

theorem Calm.trans (h : s.Calm s₁) (h' : s₁.Calm s') : s.Calm s' where
  promises := h'.promises.trans h.promises
  answers := h'.answers.trans h.answers
  openingKeys := h'.openingKeys.trans h.openingKeys
  pendingOpen := h'.pendingOpen.trans h.pendingOpen
  pendingPost := h'.pendingPost.trans h.pendingPost
  openRequests := h'.openRequests.trans h.openRequests
  postRequests := h'.postRequests.trans h.postRequests
  idle hidle hserving :=
    have hidle' := h'.idle (fun hs => (h.idle hidle hs).2) hserving
    ⟨(h.idle hidle hidle'.1).1, hidle'.2⟩
  awaited := h'.awaited.trans h.awaited
  bindings z hz := by
    rcases h'.bindings z hz with hnone | ⟨y, hy, heq, hphase⟩
    · exact .inl hnone
    rcases h.bindings y hy with hnone | ⟨x, hx, heq', hphase'⟩
    · exact .inl (heq.trans hnone)
    refine .inr ⟨x, hx, heq.trans heq', ?_⟩
    rcases hphase with hdone | ⟨hy', halive⟩
    · exact .inl hdone
    · obtain ⟨hx', halive'⟩ := hphase'.resolve_left hy'
      exact .inr ⟨hx', fun hx => halive (halive' hx)⟩

theorem Calm.of_eq (hpromises : s'.promises = s.promises) (hanswers : s'.answers = s.answers)
    (hkeys : s'.openingKeys = s.openingKeys) (hopens : s'.pendingOpen = s.pendingOpen)
    (hposts : s'.pendingPost = s.pendingPost) (hopenReqs : s'.openRequests = s.openRequests)
    (hpostReqs : s'.postRequests = s.postRequests) (hserving : s'.serving = s.serving)
    (htunnels : s.tunnels = [] → s'.tunnels = [])
    (hdevices : s.remoteDevices = [] → s.serving = false → s'.remoteDevices = [])
    (hbindings : s'.bindings = s.bindings) (hconnection : s'.connection = s.connection) :
    s.Calm s' where
  promises := hpromises
  answers := hanswers
  openingKeys := hkeys
  pendingOpen := hopens
  pendingPost := hposts
  openRequests := hopenReqs
  postRequests := hpostReqs
  idle hidle hs :=
    have hs := hserving.symm.trans hs
    ⟨hs, htunnels (hidle hs).1, hdevices (hidle hs).2 hs⟩
  awaited := by rw [hbindings]
  bindings y hy := by
    refine .inr ⟨y, hbindings ▸ hy, rfl, ?_⟩
    by_cases hdone : y.phase = .done
    · exact .inl hdone
    · refine .inr ⟨hdone, fun hy => ?_⟩
      rwa [underWay, hserving, hconnection]

theorem Calm.refl (s : RelayClient) : s.Calm s :=
  .of_eq rfl rfl rfl rfl rfl rfl rfl rfl id (fun h _ => h) rfl rfl

theorem filterMap_modify {l : List Binding}
    (h : ∀ x, l[b]? = some x → (f x).awaited = x.awaited) :
    (l.modify b f).filterMap Binding.awaited = l.filterMap Binding.awaited := by
  induction l generalizing b with
  | nil => rw [modify_nil]
  | cons x l ih =>
    cases b with
    | zero => rw [modify_zero_cons, filterMap_cons, filterMap_cons, h x rfl]
    | succ b => rw [modify_succ_cons, filterMap_cons, filterMap_cons, ih h]

theorem Calm.modify (h : ∀ x, s.bindings[b]? = some x → (f x).follows = x.follows ∧ (f x).phase ≠ .done ∧
      x.phase ≠ .done ∧ (s.underWay x = true → s.underWay (f x) = true)) :
    s.Calm { s with bindings := s.bindings.modify b f } where
  promises := rfl
  answers := rfl
  openingKeys := rfl
  pendingOpen := rfl
  pendingPost := rfl
  openRequests := rfl
  postRequests := rfl
  idle hidle hs := ⟨hs, hidle hs⟩
  awaited := by
    refine filterMap_modify fun x hx => ?_
    obtain ⟨hfollows, hphase', hphase, -⟩ := h x hx
    rw [Binding.awaited, if_neg hphase', Binding.awaited, if_neg hphase, hfollows]
  bindings y hy := by
    obtain ⟨x, hx, rfl | ⟨rfl, hxb⟩⟩ := mem_modify hy
    · exact (Calm.refl s).bindings y hx
    · obtain ⟨hfollows, -, hphase, halive⟩ := h x hxb
      exact .inr ⟨x, hx, hfollows, .inr ⟨hphase, halive⟩⟩

theorem calm_closeTransport : s.Calm (s.closeTransport b) where
  promises := rfl
  answers := rfl
  openingKeys := rfl
  pendingOpen := rfl
  pendingPost := rfl
  openRequests := rfl
  postRequests := rfl
  idle hidle hs := ⟨hs, hidle hs⟩
  awaited := by
    refine filterMap_modify fun x _ => ?_
    rcases closeTransport_cases x with heq | ⟨hphase, heq⟩ <;> rw [heq]
    rw [Binding.awaited, Binding.awaited, hphase]
    rfl
  bindings y hy := by
    obtain ⟨x, hx, rfl | ⟨rfl, -⟩⟩ := mem_modify hy
    · exact (Calm.refl s).bindings y hx
    rcases closeTransport_cases x with heq | ⟨hphase, heq⟩ <;> rw [heq]
    · exact (Calm.refl s).bindings x hx
    · refine .inr ⟨x, hx, rfl, .inr ⟨?_, fun _ => rfl⟩⟩
      rw [hphase]
      exact BindingPhase.noConfusion

theorem calm_closeLocalTunnel : s.Calm (s.closeLocalTunnel id) := by
  rw [closeLocalTunnel]
  split
  · exact .refl s
  refine Calm.trans ?_ calm_closeTransport
  refine .of_eq rfl rfl rfl rfl rfl rfl rfl rfl (fun h => ?_) (fun h _ => h) rfl rfl
  rw [h]
  rfl

theorem release_fields (x : Binding) (id connection : Nat) :
    (x.release id connection).follows = x.follows ∧ (x.release id connection).phase = x.phase ∧
      (x.release id connection).connection = x.connection := by
  rcases release_cases x id connection with heq | ⟨heq, -⟩ <;> rw [heq] <;>
    exact ⟨rfl, rfl, rfl⟩

theorem calm_release : s.Calm (s.release id) where
  promises := rfl
  answers := rfl
  openingKeys := rfl
  pendingOpen := rfl
  pendingPost := rfl
  openRequests := rfl
  postRequests := rfl
  idle hidle hs := ⟨hs, hidle hs⟩
  awaited := by
    change (s.bindings.map _).filterMap _ = _
    rw [filterMap_map]
    congr 1
    funext x
    obtain ⟨hfollows, hphase, -⟩ := release_fields x id s.connection
    rw [Function.comp, Binding.awaited, hfollows, hphase]
    rfl
  bindings y hy := by
    obtain ⟨x, hx, rfl⟩ := mem_map.mp hy
    obtain ⟨hfollows, hphase, hconnection⟩ := release_fields x id s.connection
    refine .inr ⟨x, hx, hfollows, ?_⟩
    rw [hphase]
    by_cases hdone : x.phase = .done
    · exact .inl hdone
    refine .inr ⟨hdone, fun h => ?_⟩
    rw [underWay] at h ⊢
    rw [hphase, hconnection]
    exact h

theorem calm_sendJson {message : ClientMessage} : s.Calm (s.sendJson message) := by
  rw [sendJson]
  split
  · exact .of_eq rfl rfl rfl rfl rfl rfl rfl rfl id (fun h _ => h) rfl rfl
  · exact .refl s

theorem calm_rememberRemoteDevice {name : String} (h : s.serving = true) :
    s.Calm (s.rememberRemoteDevice peerId key name) := by
  rw [rememberRemoteDevice]
  split
  · exact .refl s
  dsimp only
  split
  · exact .refl s
  · refine .of_eq rfl rfl rfl rfl rfl rfl rfl rfl id (fun _ hs => ?_) rfl rfl
    rw [h] at hs
    cases hs

theorem calm_bindTunnel {deviceKey deviceName : String}
    (h : s.serving = true) :
    s.Calm (s.bindTunnel tunnelId peerId false deviceKey deviceName none) where
  promises := rfl
  answers := rfl
  openingKeys := rfl
  pendingOpen := rfl
  pendingPost := rfl
  openRequests := rfl
  postRequests := rfl
  idle _ hs := by
    have hs : s.serving = false := hs
    rw [h] at hs
    cases hs
  awaited := by
    change (s.bindings ++ [_]).filterMap _ = _
    rw [filterMap_append]
    exact append_nil _
  bindings y hy := by
    rcases mem_append.mp hy with hy | hy
    · exact (Calm.refl s).bindings y hy
    · rw [mem_singleton.mp hy]
      exact .inl rfl

theorem calm_handleIncoming {sender senderDevice : String}
    (h : s.serving = true) : s.Calm (s.handleIncoming tunnelId sender senderDevice) := by
  have hremember : s.Calm (s.rememberRemoteDevice sender (normalizeDeviceKey senderDevice) "") :=
    calm_rememberRemoteDevice h
  have hquiet : s.Quiet (s.rememberRemoteDevice sender (normalizeDeviceKey senderDevice) "") :=
    quiet_rememberRemoteDevice
  have hserving := hquiet.serving.trans h
  rw [handleIncoming]
  split
  · exact hremember.trans calm_sendJson
  · refine (hremember.trans calm_sendJson).trans (calm_bindTunnel ?_)
    exact (quiet_sendJson fun _ => ClientMessage.noConfusion).serving.trans hserving

theorem calm_shaking {part : Bool} (hx : s.bindings[b]? = some x)
    (hphase : x.phase = .naming ∨ ∃ part, x.phase = .shaking part) :
    s.Calm (s.setPhase b (.shaking part)) := by
  refine .modify fun y hy => ?_
  obtain rfl : x = y := some.inj (hx.symm.trans hy)
  refine ⟨rfl, BindingPhase.noConfusion, ?_, fun h => ?_⟩
  · rcases hphase with h | ⟨_, h⟩ <;> rw [h] <;> exact BindingPhase.noConfusion
  · rw [underWay] at h
    rcases hphase with h' | ⟨_, h'⟩ <;> rw [h'] at h <;> exact h

/-! ## The end of a handshake -/

theorem perm_filterMap_modify {l : List Binding} (hx : l[b]? = some x)
    (hq : x.awaited = some q) (hf : (f x).awaited = none) :
    (l.filterMap Binding.awaited).Perm (q :: (l.modify b f).filterMap Binding.awaited) := by
  induction l generalizing b with
  | nil => cases hx
  | cons y l ih =>
    cases b with
    | zero =>
      cases hx
      rw [modify_zero_cons, filterMap_cons_some hq, filterMap_cons_none hf]
    | succ b =>
      have ih := ih (b := b) hx
      rw [modify_succ_cons]
      cases hy : y.awaited with
      | none =>
        rw [filterMap_cons_none hy, filterMap_cons_none hy]
        exact ih
      | some r =>
        rw [filterMap_cons_some hy, filterMap_cons_some hy]
        exact (ih.cons r).trans (List.Perm.swap q r _)

theorem Settling.finishBinding (H : s.Settling) (hx : s.bindings[b]? = some x)
    (hphase : x.phase ≠ .done) : (s.finishBinding b x).Settling := by
  have hbindings : ∀ y ∈ (s.setPhase b .done).bindings, ∃ z ∈ s.bindings, y.follows = z.follows ∧
      (y.awaited ≠ none → z.awaited ≠ none ∧ s.underWay y = s.underWay z) := by
    intro y hy
    obtain ⟨z, hz, rfl | ⟨rfl, -⟩⟩ := mem_modify hy
    · exact ⟨y, hz, rfl, fun h => ⟨h, rfl⟩⟩
    · exact ⟨z, hz, rfl, fun h => absurd rfl h⟩
  rw [RelayClient.finishBinding]
  split
  next q r hfollows =>
    obtain ⟨rfl, hans⟩ := H.followed x (mem_of_getElem? hx) q r hfollows
    have hperm : (s.bindings.filterMap Binding.awaited).Perm
        (r :: (s.setPhase b .done).bindings.filterMap Binding.awaited) :=
      perm_filterMap_modify hx (awaited_eq_some.mpr ⟨hphase, r, hfollows⟩) rfl
    constructor
    case entries =>
      exact ⟨H.entries.keys, H.entries.keysOnce, H.entries.ids, H.entries.few, H.entries.mails,
        H.entries.opens, H.entries.opensOnce, H.entries.posts, H.entries.postsOnce,
        H.entries.idle⟩
    case lists =>
      refine H.lists.remove (q := r) ?_ fun _ => unsettled_settle
      exact (hperm.append_left s.tabled).trans perm_middle
    case answered =>
      intro q hq
      refine ⟨?_, (H.answered q hq).2⟩
      change q < (s.promises.modify _ _).length
      rw [length_modify]
      exact (H.answered q hq).1
    case own =>
      exact Own.settle (s := s.setPhase b .done) H.own fun r' hr => by
        cases hr
        exact ⟨rfl, hans⟩
    case followed =>
      intro y hy q' r' hy'
      obtain ⟨z, hz, heq, -⟩ := hbindings y hy
      exact H.followed z hz q' r' (heq ▸ hy')
    case alive =>
      intro y hy hawaited
      obtain ⟨z, hz, -, h⟩ := hbindings y hy
      exact (h hawaited).2.trans (H.alive z hz (h hawaited).1)
  next hnone =>
  refine H.of_calm ⟨rfl, rfl, rfl, rfl, rfl, rfl, rfl, fun hidle hs => ⟨hs, hidle hs⟩, ?_, ?_⟩
  · refine filterMap_modify fun y hy => ?_
    obtain rfl : x = y := some.inj (hx.symm.trans hy)
    rw [Binding.awaited, if_pos rfl, Binding.awaited, if_neg hphase, hnone]
    rfl
  intro y hy
  obtain ⟨z, hz, rfl | ⟨rfl, -⟩⟩ := mem_modify hy
  · exact (Calm.refl s).bindings y hz
  · exact .inr ⟨z, hz, rfl, .inl rfl⟩

/-! ## New requests -/

theorem allocFrom_fresh {used : List Nat} {n next : Nat} (h : used.length + 1 < n) :
    (allocFrom used n next).1 ∉ used := by
  have hsearch : ∀ n next, (allocFrom used n next).1 ∉ used ∨
      ∀ i < n, next + i ∈ 0 :: used := by
    intro n
    induction n with
    | zero => exact fun _ => .inr fun _ hi => absurd hi (Nat.not_lt_zero _)
    | succ n ih =>
      intro next
      rw [allocFrom]
      split
      next hfree =>
        rw [Bool.and_eq_true, decide_eq_true_eq, decide_eq_true_eq] at hfree
        exact .inl hfree.2
      next htaken =>
      refine (ih (next + 1)).imp_right fun hall i hi => ?_
      cases i with
      | zero =>
        by_contra hmem
        exact htaken (by simpa using hmem)
      | succ i =>
        have := hall i (Nat.lt_of_succ_lt_succ hi)
        rwa [Nat.add_right_comm] at this
  refine (hsearch n next).resolve_right fun hall => ?_
  -- all ids that were tried are taken, and there are more of them than that
  have hnodup : ((List.range n).map (next + ·)).Nodup :=
    List.Nodup.map (fun _ _ => Nat.add_left_cancel) nodup_range
  have hsubset : (List.range n).map (next + ·) ⊆ 0 :: used := by
    intro id hid
    obtain ⟨i, hi, rfl⟩ := mem_map.mp hid
    exact hall i (mem_range.mp hi)
  have hle := (hnodup.subperm hsubset).length_le
  rw [length_map, length_range, length_cons] at hle
  omega

theorem Entries.allocTunnelId (H : s.Entries) (hroom : s.tunnels.length ≤ mapCapacity) :
    s.allocTunnelId.1 ∉ s.pendingOpen.map Prod.fst := by
  have hfresh : s.allocTunnelId.1 ∉ s.tunnels.map (·.1) ++ s.pendingOpen.map (·.1) := by
    refine allocFrom_fresh ?_
    have hfew := H.few
    rw [length_append, length_map, length_map]
    rw [mapCapacity] at hroom
    rw [maxPendingOpens] at hfew
    omega
  exact fun h => hfresh (mem_append.mpr (.inr h))

theorem nodup_snoc {l : List α} {a : α} (h : l.Nodup) (ha : a ∉ l) : (l ++ [a]).Nodup :=
  concat_eq_append ▸ h.concat ha

theorem Settling.refuse {request : Request} (H : s.Settling) :
    (s.newPromise request (some .refused)).Settling where
  entries := ⟨H.entries.keys, H.entries.keysOnce, H.entries.ids, H.entries.few, H.entries.mails,
    H.entries.opens, H.entries.opensOnce, H.entries.posts, H.entries.postsOnce, H.entries.idle⟩
  lists := by
    refine ⟨H.lists.1, fun q => ?_⟩
    rw [unsettled_newPromise, isNone_some, Bool.false_and, Bool.or_false]
    exact H.lists.2 q
  answered q hq := by
    refine ⟨?_, (H.answered q hq).2⟩
    exact Nat.lt_of_lt_of_le (H.answered q hq).1 (length_append ▸ Nat.le_add_right _ _)
  own := H.own.newPromise fun _ => by simp
  followed := H.followed
  alive := H.alive

theorem Settling.requestOpen (H : s.Settling) (hserving : s.serving = true)
    (hroom : s.tunnels.length ≤ mapCapacity) (hfew : s.pendingOpen.length < maxPendingOpens)
    (hkey : (target, key) ∉ s.openingKeys) : (s.requestOpen target key).Settling := by
  have hid := H.entries.allocTunnelId hroom
  rw [RelayClient.requestOpen]
  generalize s.allocTunnelId = alloc at hid ⊢
  obtain ⟨id, next⟩ := alloc
  let entry : Nat × PendingOpen := (id, ⟨target, key, s.promises.length⟩)
  refine Settling.of_calm ?_ calm_sendJson
  rw [if_neg hkey, put_of_not_mem hid]
  constructor
  case entries =>
    constructor
    case keys =>
      change _ = (s.pendingOpen ++ [entry]).map (·.2.key)
      rw [map_append, ← H.entries.keys]
      rfl
    case keysOnce => exact nodup_snoc H.entries.keysOnce hkey
    case ids =>
      change ((s.pendingOpen ++ [_]).map Prod.fst).Nodup
      rw [map_append]
      exact nodup_snoc H.entries.ids hid
    case few =>
      change (s.pendingOpen ++ [_]).length ≤ _
      rw [length_append]
      exact hfew
    case mails => exact H.entries.mails
    case opens =>
      intro m hm
      have hm : m ∈ s.openRequests ∨ m = (id, s.promises.length) := by
        split at hm
        · exact (mem_append.mp hm).imp_right mem_singleton.mp
        · exact .inl hm
      rcases hm with hm | rfl
      · obtain ⟨p, hp, hpm⟩ := H.entries.opens m hm
        exact ⟨p, mem_append.mpr (.inl hp), hpm⟩
      · exact ⟨_, mem_append.mpr (.inr (mem_singleton.mpr rfl)), rfl⟩
    case opensOnce =>
      change ((if s.socketOpen then s.openRequests ++ [(id, s.promises.length)]
        else s.openRequests).map Prod.fst).Nodup
      split
      · rw [map_append]
        refine nodup_snoc H.entries.opensOnce fun hmem => hid ?_
        obtain ⟨m, hm, heq⟩ := mem_map.mp hmem
        obtain ⟨p, hp, -⟩ := H.entries.opens m hm
        exact mem_map.mpr ⟨_, hp, heq⟩
      · exact H.entries.opensOnce
    case posts => exact H.entries.posts
    case postsOnce => exact H.entries.postsOnce
    case idle =>
      intro hs
      rw [hserving] at hs
      cases hs
  case lists =>
    refine H.lists.insert (unsettled_of_le (Nat.le_refl _)) ?_ fun _ => unsettled_newPromise
    change List.Perm (((s.pendingOpen ++ [entry]).map (·.2.promise) ++ _) ++ _) _
    rw [map_append, append_assoc, append_assoc, held, tabled, append_assoc]
    exact perm_middle
  case answered =>
    intro q hq
    have hlt := (H.answered q hq).1
    refine ⟨Nat.lt_of_lt_of_le hlt (length_append ▸ Nat.le_add_right _ _), fun hmem => ?_⟩
    refine (H.answered q hq).2 ?_
    change q ∈ (s.pendingOpen ++ [entry]).map (·.2.promise) ++ _ at hmem
    rw [map_append, append_assoc] at hmem
    rcases mem_append.mp hmem with h | h
    · exact mem_append.mpr (.inl h)
    · rcases mem_cons.mp h with rfl | h
      · exact absurd hlt (Nat.lt_irrefl _)
      · exact mem_append.mpr (.inr h)
  case own => exact Own.newPromise H.own fun _ => by simp
  case followed => exact H.followed
  case alive => exact H.alive

theorem normalizeDeviceKey_cases (key : String) :
    normalizeDeviceKey key = legacyDeviceKey ∨ normalizeDeviceKey key = directDeviceKey ∨
      normalizeDeviceKey key = jsTrim key ∧ Relay.validDeviceId (jsTrim key) = true := by
  rw [normalizeDeviceKey]
  split
  · exact .inl rfl
  split
  · exact .inr (.inl rfl)
  · split
    next hvalid => exact .inr (.inr ⟨rfl, hvalid⟩)
    · exact .inl rfl

theorem normalizeDeviceKey_idem (key : String) :
    normalizeDeviceKey (normalizeDeviceKey key) = normalizeDeviceKey key := by
  rcases normalizeDeviceKey_cases key with h | h | ⟨h, hvalid⟩
  · rw [h]
    decide +kernel
  · rw [h]
    decide +kernel
  -- an id has no white space at its ends
  have hchars : ∀ c ∈ (jsTrim key).toList, isJsSpace c = false := by
    intro c hc
    simp only [Relay.validDeviceId, Bool.and_eq_true, List.all_eq_true] at hvalid
    exact Relay.isJsSpace_of_isIdChar (hvalid.2 c hc)
  have htrim : jsTrim (jsTrim key) = jsTrim key := trimBy_of_all hchars
  have hsame : normalizeDeviceKey (jsTrim key) = normalizeDeviceKey key := by
    rw [normalizeDeviceKey, htrim]
    rfl
  rw [h, hsame, h]

theorem sessionOccupied_normalize :
    s.sessionOccupied peerId (normalizeDeviceKey key) = s.sessionOccupied peerId key := by
  rw [sessionOccupied, sessionOccupied, hasBoundSession, hasBoundSession, normalizeDeviceKey_idem]

/-- A client whose connection goes on. -/
structure Serving (s : RelayClient) : Prop where
  settling : s.Settling
  serving : s.serving = true
  room : s.tunnels.length ≤ mapCapacity

theorem Serving.of_quiet (h : s.Quiet s') (H : s.Serving) (H' : s'.Settling) : s'.Serving :=
  ⟨H', h.serving.trans H.serving, h.tunnels ▸ H.room⟩

theorem Serving.startOpen (H : s.Serving) :
    (s.startOpen target key).Serving := by
  refine H.of_quiet quiet_startOpen ?_
  rw [RelayClient.startOpen]
  split
  · exact H.settling.refuse
  next hfree =>
  rw [sessionOccupied_normalize, sessionOccupied] at hfree
  simp only [Bool.or_eq_true, decide_eq_true_eq, not_or] at hfree
  obtain ⟨⟨hfew, -⟩, hkey, -⟩ := hfree
  exact H.settling.requestOpen H.serving H.room (Nat.lt_of_not_le hfew) hkey

theorem Serving.openAll {devices : List String} (H : s.Serving) :
    (s.openAll target devices).Serving := by
  refine foldlRecOn _ _ H fun s H device _ => ?_
  split
  · exact H
  · exact H.startOpen

theorem Serving.openPeer (H : s.Serving) :
    (s.openPeer peerId deviceId).Serving := by
  rw [RelayClient.openPeer]
  split
  · exact H
  · split
    · exact H.openAll
    · split <;> exact H.openAll

theorem Serving.handlePresence {value : Json} (H : s.Serving) :
    (s.handlePresence value).Serving := by
  have hdevices : ∀ devices, Serving { s with remoteDevices := devices } := by
    intro devices
    refine ⟨H.settling.of_calm ?_, H.serving, H.room⟩
    refine .of_eq rfl rfl rfl rfl rfl rfl rfl rfl id (fun _ hs => ?_) rfl rfl
    rw [H.serving] at hs
    cases hs
  rw [RelayClient.handlePresence]
  dsimp only
  split
  · exact H
  split
  · exact hdevices _
  refine foldlRecOn _ _ (hdevices _) fun s H device _ => ?_
  rw [maybeOpen]
  split
  · exact H
  · split
    · exact H.startOpen
    · exact H

theorem Settling.openPeer_idle (H : s.Settling)
    (hserving : s.serving = false) (h : s.settlesAll (.openPeer peerId deviceId) = true) :
    (s.openPeer peerId deviceId).Settling := by
  have hone : ∀ device, s.maxTunnels = 0 ∨ s.sessionOccupied (jsTrim peerId) device = true →
      (s.openAll (jsTrim peerId) [device]).Settling := by
    intro device hdevice
    change (if _ then _ else _ : RelayClient).Settling
    split
    · exact H
    next hfree =>
    have hfull : s.maxTunnels ≤ s.tunnels.length := by
      rw [hdevice.resolve_right hfree]
      exact Nat.zero_le _
    rw [RelayClient.startOpen, decide_eq_true hfull, Bool.or_true, Bool.true_or, if_pos rfl]
    exact H.refuse
  rw [RelayClient.openPeer]
  split
  · exact H
  next hgoes =>
  simp only [settlesAll, hserving, Bool.false_or, Bool.or_eq_true, decide_eq_true_eq] at h
  simp only [Bool.or_eq_true, decide_eq_true_eq, not_or] at hgoes
  have h : s.maxTunnels = 0 ∨
      s.sessionOccupied (jsTrim peerId) (deviceId.getD "") = true := by
    rcases h with ((h | h) | h) | h
    · exact absurd h hgoes.2
    · exact absurd h hgoes.1
    · exact .inl h
    · exact .inr h
  split
  next device hdevice =>
    obtain ⟨rfl, -⟩ := filter_eq_some_iff.mp hdevice
    refine hone _ ?_
    rw [sessionOccupied_normalize]
    exact h
  next hnone =>
  have hempty : deviceId.getD "" = "" := by
    cases deviceId with
    | none => rfl
    | some device =>
      by_contra hne
      exact filter_eq_none_iff.mp hnone device rfl (decide_eq_true hne)
  rw [(H.entries.idle hserving).2.2.2]
  refine hone _ ?_
  have hlegacy : normalizeDeviceKey "" = legacyDeviceKey := by decide +kernel
  rw [hempty, ← sessionOccupied_normalize, hlegacy] at h
  exact h

theorem Settling.postMail {id uuid : String} {body : Json} (H : s.Settling)
    (h : s.settlesAll (.postMail peerId body id uuid) = true) :
    (s.postMail peerId body id uuid).Settling := by
  rw [RelayClient.postMail]
  split
  · exact H
  next htakes =>
  simp only [settlesAll, htakes, Bool.false_or, Bool.and_eq_true, List.all_eq_true,
    decide_eq_true_eq] at h
  obtain ⟨hserving, hnew⟩ := h
  generalize mailPostId id uuid = postId at hnew ⊢
  have hid : postId ∉ s.pendingPost.map Prod.fst := by
    intro hmem
    obtain ⟨m, hm, heq⟩ := List.mem_map.mp hmem
    exact hnew m hm heq
  let entry : String × Nat := (postId, s.promises.length)
  refine Settling.of_calm ?_ calm_sendJson
  rw [put_of_not_mem hid]
  constructor
  case entries =>
    constructor
    case keys => exact H.entries.keys
    case keysOnce => exact H.entries.keysOnce
    case ids => exact H.entries.ids
    case few => exact H.entries.few
    case mails =>
      change ((s.pendingPost ++ [entry]).map Prod.fst).Nodup
      rw [List.map_append]
      exact nodup_snoc H.entries.mails hid
    case opens => exact H.entries.opens
    case opensOnce => exact H.entries.opensOnce
    case posts =>
      intro m hm
      have hm : m ∈ s.postRequests ∨ m ∈ [entry] := by
        split at hm
        · exact List.mem_append.mp hm
        · exact .inl hm
      exact List.mem_append.mpr (hm.imp_left (H.entries.posts m))
    case postsOnce =>
      change ((if s.socketOpen then s.postRequests ++ [entry] else s.postRequests).map
        Prod.fst).Nodup
      split
      · rw [List.map_append]
        refine nodup_snoc H.entries.postsOnce fun hmem => hid ?_
        obtain ⟨m, hm, heq⟩ := List.mem_map.mp hmem
        exact List.mem_map.mpr ⟨m, H.entries.posts m hm, heq⟩
      · exact H.entries.postsOnce
    case idle =>
      intro hs
      rw [hserving] at hs
      cases hs
  case lists =>
    refine H.lists.insert (unsettled_of_le (Nat.le_refl _)) ?_ fun _ => unsettled_newPromise
    change List.Perm ((s.pendingOpen.map (·.2.promise) ++ (s.pendingPost ++ [entry]).map Prod.snd) ++
      s.bindings.filterMap Binding.awaited) _
    rw [List.map_append, ← List.append_assoc, List.append_assoc]
    exact List.perm_middle
  case answered =>
    intro q hq
    have hlt := (H.answered q hq).1
    refine ⟨Nat.lt_of_lt_of_le hlt (List.length_append ▸ Nat.le_add_right _ _), fun hmem => ?_⟩
    refine (H.answered q hq).2 ?_
    change q ∈ _ ++ (s.pendingPost ++ [entry]).map Prod.snd at hmem
    rw [List.map_append, ← List.append_assoc] at hmem
    rcases List.mem_append.mp hmem with h | h
    · exact h
    · exact absurd (List.mem_singleton.mp h) (Nat.ne_of_lt hlt)
  case own => exact Own.newPromise H.own fun _ => by simp
  case followed => exact H.followed
  case alive => exact H.alive

/-! ## Answers -/

theorem eraseIdx_keys {l : List (κ × α)} {a : κ × α}
    (h : (l.map Prod.fst).Nodup) (hk : l[k]? = some a) :
    ((l.eraseIdx k).map Prod.fst).Nodup ∧ ∀ m ∈ l.eraseIdx k, m ∈ l ∧ m.1 ≠ a.1 := by
  obtain ⟨hlt, rfl⟩ := List.getElem?_eq_some_iff.mp hk
  have hperm : l.Perm (l[k] :: l.eraseIdx k) := (List.getElem_cons_eraseIdx_perm hlt).symm
  obtain ⟨hkey, hnodup⟩ := nodup_cons.mp ((hperm.map Prod.fst).nodup_iff.mp h)
  exact ⟨hnodup, fun m hm => ⟨mem_of_mem_eraseIdx hm, fun heq =>
    hkey (heq ▸ mem_map.mpr ⟨m, hm, rfl⟩)⟩⟩

theorem map_filter_ne {κ' : Type} [DecidableEq κ] [DecidableEq κ'] {f : α → κ} {g : α → κ'}
    {l : List α} {a : α} (hf : (l.map f).Nodup) (hg : (l.map g).Nodup) (ha : a ∈ l) :
    (l.map g).filter (· ≠ g a) = (l.filter (f · ≠ f a)).map g := by
  rw [List.filter_map]
  congr 1
  refine filter_congr fun b hb => decide_eq_decide.mpr (not_congr ?_)
  constructor
  · intro h
    rw [inj_on_of_nodup_map hg hb ha h]
  · intro h
    rw [inj_on_of_nodup_map hf hb ha h]

theorem Settling.answerOpen (H : s.Settling)
    (hk : s.openRequests[k]? = some (id, request)) :
    ∃ pending, s.pendingOpen.find? (·.1 = id) = some (id, pending) ∧ pending.promise = request ∧
      let s' := { s with
        openRequests := s.openRequests.eraseIdx k, answers := request :: s.answers
        pendingOpen := s.pendingOpen.filter (·.1 ≠ id)
        openingKeys := s.openingKeys.filter (· ≠ (pending.peerId, pending.deviceKey)) }
      s'.Entries ∧ s.tabled.Perm (request :: s'.tabled) := by
  obtain ⟨pending, hmem, rfl⟩ := H.entries.opens _ (mem_of_getElem? hk)
  have hperm := perm_cons_filter_ne H.entries.ids hmem
  obtain ⟨hopensOnce, hrest⟩ := eraseIdx_keys H.entries.opensOnce hk
  refine ⟨pending, find?_of_mem H.entries.ids hmem, rfl, ⟨?_, ?_, ?_, ?_, H.entries.mails, ?_,
    hopensOnce, H.entries.posts, H.entries.postsOnce, ?_⟩, ?_⟩
  · have hkeys := H.entries.keysOnce
    rw [H.entries.keys] at hkeys ⊢
    exact map_filter_ne (f := Prod.fst) (a := (id, pending)) H.entries.ids hkeys hmem
  · exact H.entries.keysOnce.filter _
  · exact H.entries.ids.sublist (filter_sublist.map Prod.fst)
  · exact Nat.le_trans (length_filter_le _ _) H.entries.few
  · intro m hm
    obtain ⟨hm, hne⟩ := hrest m hm
    obtain ⟨p, hp, hpm⟩ := H.entries.opens m hm
    exact ⟨p, mem_filter.mpr ⟨hp, decide_eq_true hne⟩, hpm⟩
  · intro hs
    obtain ⟨hopens, hidle⟩ := H.entries.idle hs
    exact ⟨by rw [hopens]; rfl, hidle⟩
  · exact (hperm.map (·.2.promise)).append_right (s.pendingPost.map Prod.snd)

theorem Settling.answerPost {id : String} (H : s.Settling)
    (hk : s.postRequests[k]? = some (id, request)) :
    s.pendingPost.find? (·.1 = id) = some (id, request) ∧
      let s' := { s with
        postRequests := s.postRequests.eraseIdx k, answers := request :: s.answers
        pendingPost := s.pendingPost.filter (·.1 ≠ id) }
      s'.Entries ∧ s.tabled.Perm (request :: s'.tabled) := by
  have hmem := H.entries.posts _ (mem_of_getElem? hk)
  have hperm := perm_cons_filter_ne H.entries.mails hmem
  obtain ⟨hpostsOnce, hrest⟩ := eraseIdx_keys H.entries.postsOnce hk
  refine ⟨find?_of_mem H.entries.mails hmem, ⟨H.entries.keys, H.entries.keysOnce, H.entries.ids,
    H.entries.few, ?_, H.entries.opens, H.entries.opensOnce, ?_, hpostsOnce, ?_⟩, ?_⟩
  · exact H.entries.mails.sublist (filter_sublist.map Prod.fst)
  · intro m hm
    obtain ⟨hm, hne⟩ := hrest m hm
    exact mem_filter.mpr ⟨H.entries.posts m hm, decide_eq_true hne⟩
  · intro hs
    obtain ⟨hopens, hposts, hidle⟩ := H.entries.idle hs
    exact ⟨hopens, by rw [hposts]; rfl, hidle⟩
  · exact ((hperm.map Prod.snd).append_left _).trans perm_middle

theorem Settling.answered_of_perm (H : s.Settling)
    (hpromises : s'.promises.length = s.promises.length) (hans : s'.answers = request :: s.answers)
    (hperm : s.tabled.Perm (request :: s'.tabled)) :
    ∀ q ∈ s'.answers, q < s'.promises.length ∧ q ∉ s'.tabled := by
  rw [hans, hpromises]
  have hnodup : (request :: s'.tabled).Nodup :=
    hperm.nodup_iff.mp (nodup_append.mp H.lists.1).1
  intro q hq
  rcases mem_cons.mp hq with rfl | hq
  · refine ⟨?_, (nodup_cons.mp hnodup).1⟩
    have hmem : q ∈ s.tabled := hperm.mem_iff.mpr mem_cons_self
    by_contra hle
    have hopen := (H.lists.2 q).mp (mem_append.mpr (.inl hmem))
    rw [unsettled_of_le (Nat.le_of_not_lt hle)] at hopen
    cases hopen
  · refine ⟨(H.answered q hq).1, fun hmem => (H.answered q hq).2 ?_⟩
    exact hperm.mem_iff.mpr (mem_cons_of_mem _ hmem)

theorem perm_awaited {bindings : List Binding} (hx : x.awaited = some q)
    (h : l.Perm (q :: l')) :
    (l ++ bindings.filterMap Binding.awaited).Perm
      (l' ++ (bindings ++ [x]).filterMap Binding.awaited) := by
  rw [filterMap_append, filterMap_cons_some hx, ← append_assoc]
  exact (h.append_right _).trans (perm_append_singleton q _).symm

theorem Settling.handleOpened (H : s.Settling) (hserving : s.serving = true)
    (hk : s.openRequests[k]? = some (id, request)) :
    ({ s with openRequests := s.openRequests.eraseIdx k, answers := request :: s.answers
      }.handleOpened id request).Settling := by
  obtain ⟨pending, hfind, rfl, hentries, hperm⟩ := H.answerOpen hk
  rw [RelayClient.handleOpened]
  rw [hfind]
  constructor
  case entries =>
    refine ⟨hentries.keys, hentries.keysOnce, hentries.ids, hentries.few, hentries.mails,
      hentries.opens, hentries.opensOnce, hentries.posts, hentries.postsOnce, fun hs => ?_⟩
    rw [hserving] at hs
    cases hs
  case lists =>
    refine ⟨(perm_awaited rfl hperm).nodup_iff.mp H.lists.1, fun q => ?_⟩
    exact (perm_awaited rfl hperm).mem_iff.symm.trans (H.lists.2 q)
  case answered => exact H.answered_of_perm rfl rfl hperm
  case own => exact H.own.mono rfl (subset_cons_self _ _)
  case followed =>
    intro x hx q r hfollows
    rcases mem_append.mp hx with hx | hx
    · exact (H.followed x hx q r hfollows).imp_right (mem_cons_of_mem _)
    · rw [mem_singleton.mp hx] at hfollows
      cases hfollows
      exact ⟨rfl, mem_cons_self⟩
  case alive =>
    intro x hx hawaited
    rcases mem_append.mp hx with hx | hx
    · exact H.alive x hx hawaited
    rw [mem_singleton.mp hx]
    change (s.serving && decide (s.connection = s.connection)) = true
    rw [hserving, decide_eq_true rfl]
    rfl

/-- An answer settles the promise of its request, which no table keeps any more. -/
theorem Settling.settled {openRequests : List (Nat × Nat)} {pendingOpen : List (Nat × PendingOpen)}
    {postRequests pendingPost : List (String × Nat)} {openingKeys : List (String × String)}
    (H : s.Settling) :
    let t := { s with
      openRequests, postRequests, answers := request :: s.answers
      pendingOpen, openingKeys, pendingPost }
    t.Entries → s.tabled.Perm (request :: t.tabled) →
      (t.settle request (.answered request)).Settling := by
  intro t hentries hperm
  constructor
  case entries =>
    exact ⟨hentries.keys, hentries.keysOnce, hentries.ids, hentries.few, hentries.mails,
      hentries.opens, hentries.opensOnce, hentries.posts, hentries.postsOnce, hentries.idle⟩
  case lists =>
    exact H.lists.remove (hperm.append_right _) fun _ => unsettled_settle
  case answered => exact H.answered_of_perm (length_modify ..) rfl hperm
  case own =>
    refine Own.settle (H.own.mono rfl (subset_cons_self _ _)) fun r hr => ?_
    cases hr
    exact ⟨rfl, mem_cons_self⟩
  case followed =>
    exact fun x hx q r hfollows =>
      (H.followed x hx q r hfollows).imp_right (mem_cons_of_mem _)
  case alive => exact H.alive

theorem Settling.handleOpenFailed (H : s.Settling)
    (hk : s.openRequests[k]? = some (id, request)) :
    ({ s with openRequests := s.openRequests.eraseIdx k, answers := request :: s.answers
      }.handleOpenFailed id request).Settling := by
  obtain ⟨pending, hfind, rfl, hentries, hperm⟩ := H.answerOpen hk
  rw [RelayClient.handleOpenFailed]
  rw [hfind]
  exact H.settled hentries hperm

theorem Settling.handlePosted {id : String} (H : s.Settling)
    (hk : s.postRequests[k]? = some (id, request)) :
    ({ s with postRequests := s.postRequests.eraseIdx k, answers := request :: s.answers
      }.handlePosted id request).Settling := by
  obtain ⟨hfind, hentries, hperm⟩ := H.answerPost hk
  rw [RelayClient.handlePosted]
  rw [hfind]
  exact H.settled hentries hperm

/-! ## The ends of a connection -/

theorem Settling.connect {peerId deviceId : String} {tunnels body : Nat} (H : s.Settling)
    (hserving : s.serving = false) : (s.connect peerId deviceId tunnels body).Settling := by
  obtain ⟨hopens, hposts, -⟩ := H.entries.idle hserving
  have htabled : s.tabled = [] := by rw [tabled, hopens, hposts]; rfl
  constructor
  case entries =>
    refine ⟨rfl, nodup_nil, nodup_nil, Nat.zero_le _, nodup_nil, fun m hm => ?_,
      H.entries.opensOnce, fun m hm => ?_, H.entries.postsOnce, Bool.noConfusion ∘ Eq.symm⟩
    · obtain ⟨p, hp, -⟩ := H.entries.opens m hm
      rw [hopens] at hp
      cases hp
    · have hm := H.entries.posts m hm
      rw [hposts] at hm
      cases hm
  case lists =>
    have hlists := H.lists
    rw [held, htabled] at hlists
    exact hlists
  case answered => exact fun q hq => ⟨(H.answered q hq).1, not_mem_nil⟩
  case own => exact H.own
  case followed => exact H.followed
  case alive =>
    -- what is under way without a connection needs none
    intro x hx hawaited
    have halive := H.alive x hx hawaited
    rw [underWay] at halive ⊢
    cases hphase : x.phase with
    | naming | shaking =>
      rw [hphase, hserving] at halive
      cases halive
    | failing | established => rfl
    | done =>
      rw [hphase] at halive
      cases halive

theorem calm_closeAll : s.Calm s.closeAll := by
  have hfold : ∀ (l : List (Nat × Tunnel)) (s : RelayClient),
      s.Calm (l.foldl (fun s t => s.closeTransport t.2.binding) s) := by
    intro l
    induction l with
    | nil => exact Calm.refl
    | cons t l ih => exact fun s => calm_closeTransport.trans (ih _)
  exact hfold _ _

theorem closeTransport_idem (x : Binding) : x.closeTransport.closeTransport = x.closeTransport := by
  rcases closeTransport_cases x with heq | ⟨-, heq⟩ <;> rw [heq]
  · exact heq
  · rfl

theorem closeAll_bindings : s.closeAll.bindings[b]? = (s.bindings[b]?).map fun x =>
    if s.tunnels.any fun t => t.2.binding = b then x.closeTransport else x := by
  have hfold : ∀ (l : List (Nat × Tunnel)) (s : RelayClient),
      (l.foldl (fun s t => s.closeTransport t.2.binding) s).bindings[b]? =
        (s.bindings[b]?).map fun x =>
          if l.any fun t => t.2.binding = b then x.closeTransport else x := by
    intro l
    induction l with
    | nil => exact fun s => map_id_apply.symm
    | cons t l ih =>
      intro s
      rw [foldl_cons, ih]
      change ((s.bindings.modify t.2.binding _)[b]?).map _ = _
      rw [getElem?_modify, any_cons]
      cases s.bindings[b]? with
      | none => rfl
      | some x =>
        rw [Option.map_eq_map, Option.map_some, Option.map_some, Option.map_some]
        by_cases ht : t.2.binding = b
        · rw [if_pos ht, closeTransport_idem, ite_self, decide_eq_true ht, Bool.true_or, if_pos rfl]
        · rw [if_neg ht, decide_eq_false ht, Bool.false_or]
  exact hfold _ _

theorem foldl_settle {l : List α} {f : α → Nat} :
    ∃ promises, l.foldl (fun s p => s.settle (f p) .interrupted) s = { s with promises := promises } ∧
      promises.length = s.promises.length ∧
      (∀ q, unsettled { s with promises := promises } q =
        (s.unsettled q && decide (q ∉ l.map f))) ∧
      (s.Own → Own { s with promises := promises }) := by
  induction l generalizing s with
  | nil => exact ⟨s.promises, rfl, rfl, fun q => (Bool.and_true _).symm, id⟩
  | cons a l ih =>
    obtain ⟨promises, heq, hlength, hunsettled, hown⟩ := ih (s := s.settle (f a) .interrupted)
    refine ⟨promises, heq, hlength.trans (length_modify ..), fun q => ?_, fun H => ?_⟩
    · refine (hunsettled q).trans ?_
      rw [unsettled_settle, map_cons, Bool.and_assoc]
      congr 1
      rw [← Bool.decide_and, decide_eq_decide, mem_cons, not_or]
    · exact hown (H.settle fun r hr => by cases hr)

theorem Settling.tearDown (H : s.Settling) (h : s.settlesAll .tearDown = true) :
    s.tearDown.Settling := by
  have Hc : s.closeAll.Settling := H.of_calm calm_closeAll
  obtain ⟨opens, hopens, hopensLength, hopensUnsettled, hopensOwn⟩ :=
    foldl_settle (s := s.closeAll) (l := s.closeAll.pendingOpen) (f := fun p => p.2.promise)
  obtain ⟨posts, hposts, hpostsLength, hpostsUnsettled, hpostsOwn⟩ :=
    foldl_settle (s := { s.closeAll with promises := opens }) (l := s.closeAll.pendingPost)
      (f := Prod.snd)
  have hinterrupted : s.closeAll.interruptOpens.interruptPosts =
      { s.closeAll with promises := posts } := by
    rw [interruptPosts, interruptOpens, hopens]
    exact hposts
  rw [RelayClient.tearDown, hinterrupted]
  constructor
  case entries =>
    exact ⟨rfl, nodup_nil, nodup_nil, Nat.zero_le _, nodup_nil,
      fun _ hm => absurd hm not_mem_nil, nodup_nil,
      fun _ hm => absurd hm not_mem_nil, nodup_nil, fun _ => ⟨rfl, rfl, rfl, rfl⟩⟩
  case lists =>
    refine Hc.lists.drop fun q => ?_
    refine (hpostsUnsettled q).trans ?_
    rw [hopensUnsettled, Bool.and_assoc]
    congr 1
    rw [← Bool.decide_and, decide_eq_decide, tabled, mem_append, not_or]
  case answered =>
    intro q hq
    refine ⟨?_, not_mem_nil⟩
    exact Nat.lt_of_lt_of_eq (Hc.answered q hq).1 (hpostsLength.trans hopensLength).symm
  case own => exact hpostsOwn (hopensOwn Hc.own)
  case followed => exact Hc.followed
  case alive =>
    intro x hx hawaited
    obtain ⟨b, hb⟩ := mem_iff_getElem?.mp hx
    rw [closeAll_bindings] at hb
    obtain ⟨y, hy, rfl⟩ := map_eq_some_iff.mp hb
    obtain ⟨q, hq⟩ := ne_none_iff_exists'.mp hawaited
    obtain ⟨hphase, r, hfollows⟩ := awaited_eq_some.mp hq
    have hok := all_eq_true.mp h (y, b) (mem_zipIdx_iff_getElem?.mpr hy)
    have hsame : y.follows = some (q, r) := by
      split at hfollows
      · rcases closeTransport_cases y with heq | ⟨-, heq⟩ <;> rw [heq] at hfollows <;>
          exact hfollows
      · exact hfollows
    dsimp only at hok
    rw [hsame, isNone_some, Bool.false_or] at hok
    -- the phases that are left need no connection
    cases hy' : y.phase with
    | naming =>
      rw [hy'] at hok
      cases hok
    | shaking part =>
      cases part with
      | true =>
        rw [hy'] at hok
        cases hok
      | false =>
        rw [hy'] at hok
        rw [if_pos hok, underWay, Binding.closeTransport, hy']
    | failing | established | done =>
      have hstays : y.closeTransport = y := by rw [Binding.closeTransport, hy']
      rw [hstays, ite_self] at hphase ⊢
      first
        | exact absurd hy' hphase
        | rw [underWay, hy']

/-! ## Steps -/

theorem finishBinding_congr {y : Binding} (h : x.follows = y.follows) :
    s.finishBinding b x = s.finishBinding b y := by
  rw [finishBinding, finishBinding, h]

theorem Settling.closeAndFinish (H : s.Settling) (hx : s.bindings[b]? = some x)
    (hphase : x.phase ≠ .done) :
    ((s.closeLocalTunnel x.tunnelId).finishBinding b x).Settling := by
  have H' : (s.closeLocalTunnel x.tunnelId).Settling := H.of_calm calm_closeLocalTunnel
  rcases closeLocalTunnel_binding hx with hx' | hx'
  · exact H'.finishBinding hx' hphase
  rcases closeTransport_cases x with heq | ⟨-, heq⟩ <;> rw [heq] at hx'
  · exact H'.finishBinding hx' hphase
  · rw [finishBinding_congr (x := x) (y := { x with phase := .failing }) rfl]
    exact H'.finishBinding hx' BindingPhase.noConfusion

theorem Settling.move {a : ClientAction} (H : s.Settling) (hroom : s.tunnels.length ≤ mapCapacity)
    (hok : s.settlesAll a = true) (h : s.move own a = some s') : s'.Settling := by
  cases a with
  | connect =>
    simp only [RelayClient.move] at h
    split at h
    · cases h
    next hidle =>
    cases h
    rw [Bool.or_eq_true, not_or] at hidle
    exact H.connect ((Bool.not_eq_true _).mp hidle.1)
  | socketGone | leaveOnline | setBlocked =>
    cases h
    exact H.of_calm (.of_eq rfl rfl rfl rfl rfl rfl rfl rfl id (fun h _ => h) rfl rfl)
  | tearDown =>
    simp only [RelayClient.move] at h
    split at h
    · cases h
      exact H.tearDown hok
    · cases h
  | openPeer peerId deviceId =>
    cases h
    cases hserving : s.serving with
    | true => exact (Serving.openPeer ⟨H, hserving, hroom⟩).settling
    | false => exact H.openPeer_idle hserving hok
  | postMail =>
    cases h
    exact H.postMail hok
  | presence =>
    simp only [RelayClient.move] at h
    split at h
    next hserving =>
      cases h
      exact (Serving.handlePresence ⟨H, hserving, hroom⟩).settling
    · cases h
  | incoming =>
    simp only [RelayClient.move] at h
    split at h
    next hserving =>
      cases h
      exact H.of_calm (calm_handleIncoming hserving)
    · cases h
  | answerOpen k opened =>
    simp only [RelayClient.move] at h
    split at h
    next hserving =>
      obtain ⟨⟨id, request⟩, hk, rfl⟩ := map_eq_some_iff.mp h
      cases opened with
      | true => exact H.handleOpened hserving hk
      | false => exact H.handleOpenFailed hk
    · cases h
  | answerPost k =>
    simp only [RelayClient.move] at h
    split at h
    · obtain ⟨⟨id, request⟩, hk, rfl⟩ := map_eq_some_iff.mp h
      exact H.handlePosted hk
    · cases h
  | closed =>
    simp only [RelayClient.move] at h
    split at h
    · cases h
      exact H.of_calm (calm_release.trans calm_closeLocalTunnel)
    · cases h
  | overflow =>
    simp only [RelayClient.move] at h
    split at h
    · cases h
      exact H.of_calm calm_closeLocalTunnel
    · cases h
  | ready b part =>
    obtain ⟨x, hx, h⟩ := bind_eq_some_iff.mp h
    split at h
    next hphase =>
      cases h
      exact H.of_calm (calm_shaking hx (.inl hphase))
    · cases h
  | bytes b part =>
    obtain ⟨x, hx, h⟩ := bind_eq_some_iff.mp h
    split at h
    next hphase =>
      split at h
      · cases h
        exact H.of_calm (calm_shaking hx (.inr ⟨_, hphase⟩))
      · cases h
    · cases h
  | handshakeFails b =>
    obtain ⟨x, hx, h⟩ := bind_eq_some_iff.mp h
    cases hphase : x.phase with
    | naming | shaking | failing =>
      rw [hphase] at h
      cases h
      refine H.closeAndFinish hx ?_
      rw [hphase]
      exact BindingPhase.noConfusion
    | established | done =>
      rw [hphase] at h
      cases h
  | handshakeDone b =>
    obtain ⟨x, hx, h⟩ := bind_eq_some_iff.mp h
    split at h
    next hphase =>
      obtain ⟨br, -, rfl⟩ := map_eq_some_iff.mp h
      have hbridge : s.Calm { s with bridge := br } :=
        .of_eq rfl rfl rfl rfl rfl rfl rfl rfl id (fun h _ => h) rfl rfl
      refine H.of_calm (hbridge.trans (.modify fun y hy => ?_))
      obtain rfl : x = y := some.inj (hx.symm.trans hy)
      refine ⟨rfl, BindingPhase.noConfusion, ?_, fun _ => rfl⟩
      rw [hphase]
      exact BindingPhase.noConfusion
    · cases h
  | attachDone b =>
    obtain ⟨x, hx, h⟩ := bind_eq_some_iff.mp h
    split at h
    next hphase =>
      have hphase : x.phase ≠ .done := by
        rw [hphase]
        exact BindingPhase.noConfusion
      obtain ⟨session, -, h⟩ := bind_eq_some_iff.mp h
      split at h
      · cases h
        exact H.finishBinding hx hphase
      · split at h
        · cases h
          exact H.closeAndFinish hx hphase
        · cases h
          exact H.finishBinding hx hphase
      all_goals cases h
    · cases h
  | bridge a =>
    have hbridge : ∀ {br : Bridge}, Settling { s with bridge := br } := fun {_} =>
      H.of_calm (.of_eq rfl rfl rfl rfl rfl rfl rfl rfl id (fun h _ => h) rfl rfl)
    cases a with
    | establish => cases h
    | resume | enter | close | finishClose =>
      obtain ⟨br, -, rfl⟩ := map_eq_some_iff.mp h
      exact hbridge

/-- No request is left hanging in a run in which every one of them is made, and every connection
ends, so that it will be settled. -/
theorem noneHanging_of_settlesAll {acts : List ClientAction}
    (h : Run (step own) (fun s a => s.settlesAll a = true) {} acts s) : s.NoneHanging := by
  have hinv : s.Settling ∧ s.tunnels.length ≤ mapCapacity := by
    refine h.invariant (I := fun s => s.Settling ∧ s.tunnels.length ≤ mapCapacity)
      (fun hok hI hstep => ?_) ⟨.empty, Nat.zero_le _⟩
    exact ⟨hI.1.move hI.2 hok (move_of_step hstep),
      of_decide_eq_true (filter_eq_some_iff.mp hstep).2⟩
  exact hinv.1.noneHanging

/-- A mail is stored, a device opened, and then the connection ends. -/
theorem noneHanging_of_settlesAll_answered : ∃ acts s, FreeRun (step "a") {} acts s ∧
    s.promises.map (·.outcome) = [some (.answered 0), some (.answered 1), some .interrupted] ∧
    s.NoneHanging := by
  let acts : List ClientAction := [.connect "a" "" 64 1000, .postMail "b" (.str "hi") "m" "u",
    .openPeer "b" (some "device-1"), .answerOpen 0 true, .ready 0 false, .answerPost 0,
    .handshakeDone 0 "b" "B" "relay://host" 0, .bridge (.resume 0), .attachDone 0,
    .postMail "b" (.str "hi") "m" "u", .socketGone, .tearDown]
  have hrun : (exec (step "a") {} acts).map (fun s => s.promises.map (·.outcome)) =
      some [some (.answered 0), some (.answered 1), some .interrupted] := by
    decide +kernel
  have hok : allowed (step "a") settlesAll {} acts = true := by decide +kernel
  obtain ⟨s, hs, hend⟩ := map_eq_some_iff.mp hrun
  exact ⟨acts, s, .of_exec hs, hend, noneHanging_of_settlesAll (Run.of_allowed hok hs)⟩

/-- Two mails are posted under one id: the second takes the entry of the first. -/
theorem reused_id_hangs : ¬ ∀ acts s, FreeRun (step "a") {} acts s → s.NoneHanging := by
  intro h
  let acts : List ClientAction := [.connect "a" "" 64 1000, .postMail "b" (.str "hi") "m" "u",
    .postMail "b" (.str "hi") "m" "u"]
  have hrun : (exec (step "a") {} acts).map (fun s => (s.unsettled 0, s.tabled, s.bindings)) =
      some (true, [1], []) := by
    decide +kernel
  obtain ⟨s, hs, hend⟩ := map_eq_some_iff.mp hrun
  obtain ⟨hunsettled, hend⟩ := Prod.mk.inj hend
  obtain ⟨htabled, hbindings⟩ := Prod.mk.inj hend
  rcases (h acts s (.of_exec hs)).waits 0 hunsettled with ⟨-, hmem, -⟩ | ⟨x, hx, -⟩
  · rw [htabled] at hmem
    exact absurd hmem (by decide)
  · rw [hbindings] at hx
    cases hx

end RelayClient
end Bluetalk.WebBridge
