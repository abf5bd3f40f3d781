import Mathlib.Algebra.Order.BigOperators.Group.List
import Mathlib.Tactic.FieldSimp
import Mathlib.Tactic.Linarith
import Bluetalk.Theory.Keyed
import Bluetalk.Theory.Run

/-!
# Rate limits of the relay

`ratelimit.rs`: a bucket of tokens that may go into debt, and a limiter that counts the events of
each key in a sliding window. Times are told by the caller, in any unit; those of a bucket, its
amounts and its rate are rationals.
-/

open List

namespace Bluetalk.Relay

/-! ## The sliding window -/

structure WindowBucket where
  key : String
  events : List Nat
  window : Nat

structure WindowLimiter where
  map : List WindowBucket := []
  ops : Nat := 0

def windowMaxKeys : Nat := 50000

/-- `now.saturating_duration_since(*t) < window` -/
def recent (now window : Nat) (events : List Nat) : List Nat := events.filter fun t => now - t < window

def WindowBucket.retain (now : Nat) (b : WindowBucket) : WindowBucket :=
  { b with events := recent now b.window b.events }

def sweep (now : Nat) (map : List WindowBucket) : List WindowBucket :=
  (map.map (·.retain now)).filter (·.events ≠ [])

def bucket? (map : List WindowBucket) (key : String) : Option WindowBucket :=
  map.find? (·.key = key)

/-- Whether an event is allowed, and the map with it if it is -/
def admitted (map : List WindowBucket) (key : String) (max window now : Nat) :
    Bool × List WindowBucket :=
  match bucket? map key with
  | some b =>
    let events := recent now window b.events
    if max ≤ events.length then (false, put WindowBucket.key { b with window, events } map)
    else (true, put WindowBucket.key { b with window, events := events ++ [now] } map)
  | none =>
    let map := if windowMaxKeys ≤ map.length then sweep now map else map
    if windowMaxKeys ≤ map.length then (false, map)
    else (true, put WindowBucket.key ⟨key, [now], window⟩ map)

def WindowLimiter.allow (l : WindowLimiter) (key : String) (max window now : Nat) :
    Bool × WindowLimiter :=
  let ops := (l.ops + 1) % 2 ^ 64
  let r := admitted (if ops % 2048 = 0 then sweep now l.map else l.map) key max window now
  (r.1, ⟨r.2, ops⟩)

/-- The limit of a key, which allows something -/
structure Limit where
  max : Nat
  window : Nat
  one_le : 1 ≤ max

/-- A limiter with the time of its last event, and all events that it has allowed -/
structure Limited where
  limiter : WindowLimiter := {}
  now : Nat := 0
  granted : List (String × Nat) := []

variable {limits : String → Limit} {s s' : Limited} {map : List WindowBucket} {now now' window : Nat}
  {key k : String} {events : List Nat}

namespace Limited

def allowed (limits : String → Limit) (s : Limited) (e : String × Nat) : Bool × WindowLimiter :=
  s.limiter.allow e.1 (limits e.1).max (limits e.1).window e.2

def step (limits : String → Limit) (s : Limited) (e : String × Nat) : Option Limited :=
  if e.2 < s.now then none
  else
    let r := s.allowed limits e
    some ⟨r.2, e.2, if r.1 then s.granted ++ [e] else s.granted⟩

/-- The times at which events of the key were allowed -/
def times (s : Limited) (key : String) : List Nat := (s.granted.filter (·.1 = key)).map (·.2)

def tracks (s : Limited) (key : String) : Bool := (bucket? s.limiter.map key).isSome

/-- An event of a tracked key is allowed where fewer were in the window before it, and only there. -/
def Exact (limits : String → Limit) (s : Limited) (e : String × Nat) (s' : Limited) : Prop :=
  s'.limiter.map.length ≤ windowMaxKeys ∧ (s.tracks e.1 ∨ s'.tracks e.1 →
    ((s.allowed limits e).1 = true ↔
      (recent e.2 (limits e.1).window (s.times e.1)).length < (limits e.1).max))

end Limited

/-- The events that a map still has of a key -/
def kept (map : List WindowBucket) (key : String) : List Nat :=
  ((bucket? map key).map (·.events)).getD []

theorem recent_recent (h : now ≤ now') :
    recent now' window (recent now window events) = recent now' window events := by
  rw [recent, recent, filter_filter]
  refine filter_congr fun t _ => ?_
  simp only [Bool.and_eq_left_iff_imp, decide_eq_true_eq]
  omega

theorem bucket?_put (b : WindowBucket) : bucket? (put WindowBucket.key b map) k =
    if b.key = k then some b else bucket? map k := find?_put

/-- What a limiter has kept: a window for each key, and in it the events that still count. -/
structure Tracking (limits : String → Limit) (now : Nat) (times : String → List Nat)
    (map : List WindowBucket) : Prop where
  keys : (map.map (·.key)).Nodup
  few : map.length ≤ windowMaxKeys
  windows : ∀ b ∈ map, b.window = (limits b.key).window
  kept : ∀ key now', now ≤ now' →
    recent now' (limits key).window (kept map key) = recent now' (limits key).window (times key)

variable {times times' : String → List Nat}

theorem recent_append {events' : List Nat} :
    recent now window (events ++ events') = recent now window events ++ recent now window events' :=
  filter_append ..

theorem keys_sweep : ((sweep now map).map (·.key)).Sublist (map.map (·.key)) := by
  have hkeys : (map.map (·.retain now)).map (·.key) = map.map (·.key) := by
    rw [map_map]
    rfl
  rw [← hkeys]
  exact filter_sublist.map _

theorem length_sweep_le : (sweep now map).length ≤ map.length := by
  have h : ((sweep now map).map (·.key)).length ≤ (map.map (·.key)).length := keys_sweep.length_le
  rwa [length_map, length_map] at h

theorem bucket?_eq_none_of_not_mem (h : k ∉ map.map (·.key)) : bucket? map k = none := by
  rw [bucket?, find?_eq_none]
  intro b hb hk
  exact h (mem_map.mpr ⟨b, hb, of_decide_eq_true hk⟩)

theorem kept_sweep (hkeys : (map.map (·.key)).Nodup)
    (hwindows : ∀ b ∈ map, b.window = (limits b.key).window) :
    kept (sweep now map) k = recent now (limits k).window (kept map k) := by
  induction map with
  | nil => rfl
  | cons b map ih =>
    rw [map_cons, nodup_cons] at hkeys
    obtain ⟨hwindow, hwindows⟩ := forall_mem_cons.mp hwindows
    have ih := ih hkeys.2 hwindows
    have hretain : (b.retain now).events = recent now (limits b.key).window b.events := by
      rw [WindowBucket.retain, hwindow]
    by_cases hk : b.key = k
    · subst hk
      have hrest : bucket? (sweep now map) b.key = none :=
        bucket?_eq_none_of_not_mem fun h => hkeys.1 (keys_sweep.subset h)
      have hfirst : kept (b :: map) b.key = b.events := by simp [kept, bucket?]
      rw [hfirst, ← hretain]
      by_cases hempty : (b.retain now).events = []
      · have hsweep : sweep now (b :: map) = sweep now map := by simp [sweep, hempty]
        rw [hsweep, kept, hrest, hempty]
        rfl
      · have hsweep : sweep now (b :: map) = b.retain now :: sweep now map := by
          simp [sweep, hempty]
        have hkey : (b.retain now).key = b.key := rfl
        simp [hsweep, kept, bucket?, hkey]
    · have hskip : kept (b :: map) k = kept map k := by simp [kept, bucket?, hk]
      have hkey : (b.retain now).key ≠ k := hk
      rw [hskip, ← ih]
      by_cases hempty : (b.retain now).events = [] <;> simp [sweep, kept, bucket?, hempty, hkey]

namespace Tracking

theorem later (T : Tracking limits now times map) (h : now ≤ now') :
    Tracking limits now' times map :=
  ⟨T.keys, T.few, T.windows, fun key now'' hnow => T.kept key now'' (h.trans hnow)⟩

theorem sweep (T : Tracking limits now times map) : Tracking limits now times (sweep now map) where
  keys := T.keys.sublist keys_sweep
  few := length_sweep_le.trans T.few
  windows b hb := by
    obtain ⟨b', hb', rfl⟩ := mem_map.mp (mem_of_mem_filter hb)
    exact T.windows b' hb'
  kept key now' hnow := by
    rw [kept_sweep T.keys T.windows, recent_recent hnow, T.kept key now' hnow]

theorem put (T : Tracking limits now times map) {b : WindowBucket}
    (hwindow : b.window = (limits b.key).window)
    (hroom : b.key ∈ map.map (·.key) ∨ map.length < windowMaxKeys)
    (hsame : ∀ k, k ≠ b.key → times' k = times k)
    (hkept : ∀ now', now ≤ now' → recent now' (limits b.key).window b.events =
      recent now' (limits b.key).window (times' b.key)) :
    Tracking limits now times' (put WindowBucket.key b map) where
  keys := nodup_put T.keys
  few := by
    have hlength := congrArg List.length (@map_put _ _ _ WindowBucket.key b map)
    rw [length_map] at hlength
    rw [hlength]
    split
    · rw [length_map]
      exact T.few
    · rename_i hnew
      rw [length_append, length_map]
      exact hroom.resolve_left hnew
  windows b' hb' := by
    rcases mem_of_mem_put hb' with rfl | hb'
    · exact hwindow
    · exact T.windows b' hb'
  kept key now' hnow := by
    rw [Relay.kept, bucket?_put]
    split
    · rename_i hkey
      subst hkey
      exact hkept now' hnow
    · rename_i hkey
      rw [hsame key (Ne.symm hkey)]
      exact T.kept key now' hnow

theorem recent_times (T : Tracking limits now times map) {b : WindowBucket}
    (hb : bucket? map k = some b) :
    recent now (limits k).window b.events = recent now (limits k).window (times k) := by
  have hkept := T.kept k now le_rfl
  rwa [Relay.kept, hb] at hkept

theorem recent_times_of_none (T : Tracking limits now times map) (hb : bucket? map k = none) :
    recent now (limits k).window (times k) = [] := by
  have hkept := T.kept k now le_rfl
  rw [Relay.kept, hb] at hkept
  exact hkept.symm

end Tracking

theorem key_of_bucket? {b : WindowBucket} (h : bucket? map k = some b) :
    b.key = k ∧ k ∈ map.map (·.key) := by
  have hkey : b.key = k := by simpa using find?_some h
  exact ⟨hkey, mem_map.mpr ⟨b, mem_of_find?_eq_some h, hkey⟩⟩

theorem length_sweep_lt (hkey : k ∈ map.map (·.key)) (hgone : bucket? (sweep now map) k = none) :
    (sweep now map).length < map.length := by
  obtain ⟨b, hb, rfl⟩ := mem_map.mp hkey
  have hempty : (b.retain now).events = [] := by
    by_contra hne
    have hmem : b.retain now ∈ sweep now map :=
      mem_filter.mpr ⟨mem_map_of_mem hb, decide_eq_true hne⟩
    exact find?_eq_none.mp hgone _ hmem (decide_eq_true rfl)
  have hlt : (sweep now map).length < (map.map (·.retain now)).length := by
    refine length_filter_lt_length_iff_exists.mpr ⟨b.retain now, mem_map_of_mem hb, ?_⟩
    simp [hempty]
  rwa [length_map] at hlt

theorem bucket?_sweep (h : bucket? map k = none) : bucket? (sweep now map) k = none := by
  refine bucket?_eq_none_of_not_mem fun hmem => ?_
  obtain ⟨b, hb, hk⟩ := mem_map.mp (keys_sweep.subset hmem)
  exact find?_eq_none.mp h b hb (decide_eq_true hk)

/-- The allowed events with one more -/
def counted (times : String → List Nat) (key : String) (now : Nat) (answer : Bool) (k : String) :
    List Nat :=
  times k ++ if answer ∧ key = k then [now] else []

theorem counted_false : counted times key now false = times := by
  funext k
  simp [counted]

theorem Tracking.admitted (T : Tracking limits now times map) :
    let r := admitted map key (limits key).max (limits key).window now
    Tracking limits now (counted times key now r.1) r.2 ∧
      (bucket? map key ≠ none ∨ map.length < windowMaxKeys ∨ bucket? r.2 key ≠ none →
        (r.1 = true ↔ (recent now (limits key).window (times key)).length < (limits key).max)) := by
  have hother : ∀ answer k, k ≠ key → counted times key now answer k = times k := by
    intro answer k hk
    simp [counted, Ne.symm hk]
  rw [Relay.admitted]
  cases hb : bucket? map key with
  | some b =>
    obtain ⟨rfl, hkey⟩ := key_of_bucket? hb
    have hrecent := T.recent_times hb
    have hkept : ∀ now', now ≤ now' → recent now' (limits b.key).window b.events =
        recent now' (limits b.key).window (times b.key) := by
      intro now' hnow
      rw [← recent_recent hnow, hrecent, recent_recent hnow]
    dsimp only
    rw [← hrecent]
    split
    · rename_i hfull
      refine ⟨?_, fun _ => by simpa using hfull⟩
      rw [counted_false]
      refine T.put rfl (.inl hkey) (fun _ _ => rfl) fun now' hnow => ?_
      rw [recent_recent hnow]
      exact hkept now' hnow
    rename_i hfree
    refine ⟨T.put rfl (.inl hkey) (hother true) fun now' hnow => ?_, fun _ => by simpa using hfree⟩
    rw [counted, if_pos ⟨rfl, rfl⟩, recent_append, recent_append, recent_recent hnow,
      hkept now' hnow]
  | none =>
    have hrecent := T.recent_times_of_none hb
    dsimp only
    have hgone : bucket? (if windowMaxKeys ≤ map.length then Relay.sweep now map else map) key
        = none := by
      split
      · exact bucket?_sweep hb
      · exact hb
    have T' : Tracking limits now times
        (if windowMaxKeys ≤ map.length then Relay.sweep now map else map) := by
      split
      · exact T.sweep
      · exact T
    have hlength : (if windowMaxKeys ≤ map.length then Relay.sweep now map else map).length ≤
        map.length := by
      split
      · exact length_sweep_le
      · exact le_rfl
    generalize (if windowMaxKeys ≤ map.length then Relay.sweep now map else map) = map'
      at hgone T' hlength
    split
    · rename_i hfull
      refine ⟨by rwa [counted_false], fun htracked => ?_⟩
      rcases htracked with h | h | h
      · exact absurd rfl h
      · omega
      · exact absurd hgone h
    rename_i hfree
    have hcount : (recent now (limits key).window (times key)).length < (limits key).max := by
      rw [hrecent]
      exact (limits key).one_le
    refine ⟨T'.put rfl (.inr (Nat.not_le.mp hfree)) (hother true) fun now' hnow => ?_,
      fun _ => ⟨fun _ => hcount, fun _ => rfl⟩⟩
    rw [counted, if_pos ⟨rfl, rfl⟩, recent_append, ← @recent_recent _ _ _ (times key) hnow, hrecent]
    rfl

namespace Limited

variable {e : String × Nat} {es : List (String × Nat)}

/-- What a limiter keeps, of the events that it has allowed -/
def Tracked (limits : String → Limit) (s : Limited) : Prop :=
  Tracking limits s.now s.times s.limiter.map

theorem times_granted {l : WindowLimiter} {answer : Bool} :
    Limited.times ⟨l, now, if answer then s.granted ++ [(key, now)] else s.granted⟩ =
      counted s.times key now answer := by
  funext k
  cases answer
  · simp [times, counted]
  · by_cases hk : key = k <;> simp [times, counted, filter_append, hk]

theorem exact_step (H : s.Tracked limits) (hstep : s.step limits e = some s') :
    s'.Tracked limits ∧ Exact limits s e s' := by
  obtain ⟨key, now⟩ := e
  rw [step, Option.ite_none_left_eq_some] at hstep
  obtain ⟨hnow, hs'⟩ := hstep
  obtain rfl := Option.some.inj hs'
  have T : Tracking limits now s.times s.limiter.map := H.later (Nat.not_lt.mp hnow)
  have hswept : ∀ swept, swept = s.limiter.map ∨ swept = sweep now s.limiter.map →
      Tracking limits now s.times swept ∧ (bucket? s.limiter.map key ≠ none →
        bucket? swept key ≠ none ∨ swept.length < windowMaxKeys) := by
    rintro swept (rfl | rfl)
    · exact ⟨T, .inl⟩
    refine ⟨T.sweep, fun hsome => or_iff_not_imp_left.mpr fun hgone => ?_⟩
    obtain ⟨b, hb⟩ := Option.ne_none_iff_exists'.mp hsome
    exact (length_sweep_lt (key_of_bucket? hb).2 (not_not.mp hgone)).trans_le T.few
  obtain ⟨T', hroom⟩ := hswept (if (s.limiter.ops + 1) % 2 ^ 64 % 2048 = 0 then
    sweep now s.limiter.map else s.limiter.map) (by split <;> simp)
  obtain ⟨hafter, hexact⟩ := @Tracking.admitted _ _ _ key _ T'
  refine ⟨?_, hafter.few, fun htracks => ?_⟩
  · rw [Tracked, times_granted]
    exact hafter
  refine hexact ?_
  rcases htracks with htracks | htracks
  · have hsome : bucket? s.limiter.map key ≠ none := Option.isSome_iff_ne_none.mp htracks
    exact (hroom hsome).imp_right .inl
  · exact .inr (.inr (Option.isSome_iff_ne_none.mp htracks))

/-- In every run every event of a tracked key is allowed exactly when it is within the limit of
the key, and no more keys are tracked than may be. -/
theorem window_exact (h : FreeRun (step limits) {} es s) :
    EveryStep (step limits) (Exact limits) {} es := by
  refine h.everyStep (I := Tracked limits) (fun _ H hstep => exact_step H hstep) ?_
  exact ⟨nodup_nil, Nat.zero_le _, fun b hb => (by cases hb), fun _ _ _ => rfl⟩

/-- Two in a window of 60: the third event is refused, and the first is out of it when the fourth
comes. -/
theorem window_exact_sample : ∃ s, exec (step fun _ => ⟨2, 60, by decide⟩) {}
      [("reg", 0), ("reg", 1), ("reg", 59), ("reg", 60)] = some s ∧
    s.granted = [("reg", 0), ("reg", 1), ("reg", 60)] ∧
    EveryStep (step fun _ => ⟨2, 60, by decide⟩) (Exact fun _ => ⟨2, 60, by decide⟩) {}
      [("reg", 0), ("reg", 1), ("reg", 59), ("reg", 60)] :=
  ⟨_, rfl, rfl, window_exact (.of_exec rfl)⟩

end Limited

/-! ## The bucket of tokens -/

structure TokenBucket where
  rate : ℚ
  burst : ℚ
  tokens : ℚ
  last : ℚ

namespace TokenBucket

def new (rate burst now : ℚ) : TokenBucket := ⟨rate, burst, burst, now⟩

def refill (b : TokenBucket) (now : ℚ) : TokenBucket :=
  { b with last := now, tokens := min (b.tokens + max 0 (now - b.last) * b.rate) b.burst }

def tryTake (b : TokenBucket) (amount now : ℚ) : Bool × TokenBucket :=
  if amount ≤ 0 then (true, b)
  else
    let b := b.refill now
    if amount ≤ b.tokens then (true, { b with tokens := b.tokens - amount }) else (false, b)

/-- The time to wait; the tokens may become a debt. -/
def takeOrWait (b : TokenBucket) (amount now : ℚ) : ℚ × TokenBucket :=
  if amount ≤ 0 then (0, b)
  else
    let b := b.refill now
    if amount ≤ b.tokens then (0, { b with tokens := b.tokens - amount })
    else
      let deficit := amount - b.tokens
      (max 0 (deficit / max b.rate (1 / 10 ^ 9)), { b with tokens := b.tokens - amount })

end TokenBucket

/-- A request at a time. Who is told to wait passes after that, and `late` after it. -/
inductive Take
  | tryTake (amount now : ℚ)
  | takeOrWait (amount now late : ℚ)

/-- A bucket with the time of the last request, and what has passed, with the time at which it did -/
structure Throttled where
  bucket : TokenBucket
  now : ℚ
  passed : List (ℚ × ℚ) := []

namespace Throttled

def create (rate burst : ℚ) : Throttled := { bucket := .new rate burst 0, now := 0 }

def step (s : Throttled) : Take → Option Throttled
  | .tryTake amount now =>
    if now < s.now then none
    else
      let r := s.bucket.tryTake amount now
      some ⟨r.2, now, if r.1 ∧ 0 < amount then s.passed ++ [(now, amount)] else s.passed⟩
  | .takeOrWait amount now late =>
    if now < s.now ∨ late < 0 then none
    else
      let r := s.bucket.takeOrWait amount now
      some ⟨r.2, now, if 0 < amount then s.passed ++ [(now + r.1 + late, amount)] else s.passed⟩

/-- What has passed up to a time -/
def passedBy (s : Throttled) (t : ℚ) : ℚ := ((s.passed.filter (·.1 ≤ t)).map (·.2)).sum

/-- What a bucket allows: no more than the burst and what has been filled up since. -/
structure Bounded (rate burst : ℚ) (s : Throttled) : Prop where
  rate_eq : s.bucket.rate = rate
  burst_eq : s.bucket.burst = burst
  last : s.bucket.last ≤ s.now
  tokens : s.bucket.tokens ≤ burst
  amounts : ∀ p ∈ s.passed, 0 ≤ p.2
  total : (s.passed.map (·.2)).sum ≤ burst + rate * s.bucket.last - s.bucket.tokens
  bound : ∀ t, 0 ≤ t → s.passedBy t ≤ burst + rate * t

variable {rate burst amount now p : ℚ} {s s' : Throttled} {e : Take} {es : List Take}

theorem passedBy_le (h : ∀ p ∈ s.passed, 0 ≤ p.2) (t : ℚ) :
    s.passedBy t ≤ (s.passed.map (·.2)).sum := by
  refine (filter_sublist.map _).sum_le_sum fun a ha => ?_
  obtain ⟨p, hp, rfl⟩ := mem_map.mp ha
  exact h p hp

theorem Bounded.refill (H : s.Bounded rate burst) (hnow : s.now ≤ now) :
    Bounded rate burst ⟨s.bucket.refill now, now, s.passed⟩ where
  rate_eq := H.rate_eq
  burst_eq := H.burst_eq
  last := le_rfl
  tokens := (min_le_right _ _).trans_eq H.burst_eq
  amounts := H.amounts
  total := by
    have hlast := H.last.trans hnow
    have hfilled : (s.bucket.refill now).tokens ≤
        s.bucket.tokens + (now - s.bucket.last) * rate := by
      refine (min_le_left _ _).trans_eq ?_
      rw [max_eq_right (by linarith), H.rate_eq]
    have htotal := H.total
    change _ ≤ burst + rate * now - (s.bucket.refill now).tokens
    linarith
  bound := H.bound

theorem Bounded.take (H : s.Bounded rate burst) (hrate : 0 ≤ rate) (hlast : s.bucket.last = s.now)
    (hamount : 0 ≤ amount)
    (hdebt : amount - s.bucket.tokens ≤ rate * (p - s.now)) :
    Bounded rate burst ⟨{ s.bucket with tokens := s.bucket.tokens - amount }, s.now,
      s.passed ++ [(p, amount)]⟩ := by
  have hamounts : ∀ q ∈ s.passed ++ [(p, amount)], 0 ≤ q.2 := by
    intro q hq
    rcases mem_append.mp hq with hq | hq
    · exact H.amounts q hq
    · rw [mem_singleton.mp hq]
      exact hamount
  have htotal := H.total
  have hsum : ((s.passed ++ [(p, amount)]).map (·.2)).sum ≤
      burst + rate * s.bucket.last - (s.bucket.tokens - amount) := by
    rw [map_append, sum_append]
    simp only [map_cons, map_nil, sum_cons, sum_nil]
    linarith
  refine ⟨H.rate_eq, H.burst_eq, H.last, ?_, hamounts, hsum, fun t ht => ?_⟩
  · have htokens := H.tokens
    linarith
  by_cases hpt : p ≤ t
  · refine (passedBy_le hamounts t).trans (hsum.trans ?_)
    have hgrows : rate * p ≤ rate * t := mul_le_mul_of_nonneg_left hpt hrate
    rw [hlast]
    linarith
  · have hsame : passedBy ⟨{ s.bucket with tokens := s.bucket.tokens - amount }, s.now,
        s.passed ++ [(p, amount)]⟩ t = s.passedBy t := by
      simp [hpt, passedBy]
    rw [hsame]
    exact H.bound t ht

theorem Bounded.later (H : s.Bounded rate burst) (hnow : s.now ≤ now) :
    Bounded rate burst ⟨s.bucket, now, s.passed⟩ :=
  ⟨H.rate_eq, H.burst_eq, H.last.trans hnow, H.tokens, H.amounts, H.total, H.bound⟩

theorem Bounded.step (hrate : 1 / 10 ^ 9 ≤ rate) (H : s.Bounded rate burst)
    (hstep : s.step e = some s') : s'.Bounded rate burst := by
  have hpos : 0 < rate := lt_of_lt_of_le (by norm_num) hrate
  cases e with
  | tryTake amount now =>
    rw [Throttled.step, Option.ite_none_left_eq_some] at hstep
    obtain ⟨hnow, hs'⟩ := hstep
    obtain rfl := Option.some.inj hs'
    have hnow := not_lt.mp hnow
    rw [TokenBucket.tryTake]
    by_cases hamount : amount ≤ 0
    · simp only [hamount, if_true, not_lt.mpr hamount, and_false, if_false]
      exact H.later hnow
    · have H' := H.refill hnow
      have hamount' := not_le.mp hamount
      rw [if_neg hamount]
      dsimp only
      split
      · rename_i henough
        simp only [hamount', and_self, if_true]
        refine H'.take hpos.le rfl hamount'.le ?_
        rw [sub_self, mul_zero]
        exact sub_nonpos.mpr henough
      · simpa using H'
  | takeOrWait amount now late =>
    rw [Throttled.step, Option.ite_none_left_eq_some, not_or] at hstep
    obtain ⟨⟨hnow, hlate⟩, hs'⟩ := hstep
    obtain rfl := Option.some.inj hs'
    have hnow := not_lt.mp hnow
    rw [TokenBucket.takeOrWait]
    by_cases hamount : amount ≤ 0
    · simp only [hamount, if_true, not_lt.mpr hamount, if_false]
      exact H.later hnow
    · have H' := H.refill hnow
      have hamount' := not_le.mp hamount
      rw [if_neg hamount, if_pos hamount']
      dsimp only
      split
      · rename_i henough
        refine H'.take hpos.le rfl hamount'.le ?_
        have hgrows : 0 ≤ rate * (now + 0 + late - now) := mul_nonneg hpos.le (by linarith)
        exact (sub_nonpos.mpr henough).trans hgrows
      · refine H'.take hpos.le rfl hamount'.le ?_
        have hmax : max (s.bucket.refill now).rate (1 / 10 ^ 9) = rate := by
          rw [H'.rate_eq, max_eq_left hrate]
        rw [hmax]
        have hwait : (amount - (s.bucket.refill now).tokens) / rate ≤
            now + max 0 ((amount - (s.bucket.refill now).tokens) / rate) + late - now := by
          have hle := le_max_right 0 ((amount - (s.bucket.refill now).tokens) / rate)
          linarith
        calc amount - (s.bucket.refill now).tokens
            = rate * ((amount - (s.bucket.refill now).tokens) / rate) := by
              field_simp
          _ ≤ _ := mul_le_mul_of_nonneg_left hwait hpos.le

/-- In every run no more passes up to a time than the burst and what the rate gives until then, and
the tokens never exceed the burst. The rate is one that makes `rate.max(1e-9)` the rate. -/
theorem passedBy_bounded (hrate : 1 / 10 ^ 9 ≤ rate) (hburst : 0 ≤ burst)
    (h : FreeRun step (create rate burst) es s) :
    s.bucket.tokens ≤ burst ∧ ∀ t, 0 ≤ t → s.passedBy t ≤ burst + rate * t := by
  have hcreated : (create rate burst).Bounded rate burst := by
    refine ⟨rfl, rfl, le_rfl, le_rfl, fun p hp => (by cases hp), ?_, fun t ht => ?_⟩
    · simp [create, TokenBucket.new]
    · have hgrows : 0 ≤ rate * t := mul_nonneg (le_trans (by norm_num) hrate) ht
      simp only [passedBy, create, filter_nil, map_nil, sum_nil]
      linarith
  have H := h.invariant (fun _ H hstep => H.step hrate hstep) hcreated
  exact ⟨H.tokens, H.bound⟩

def byteRate : ℚ := 4 * 1024 * 1024
def byteBurst : ℚ := 16 * 1024 * 1024

theorem passedBy_bounded_frame : ∃ s, exec step (create byteRate byteBurst)
      [.takeOrWait (20 * 1024 * 1024) 0 0, .tryTake 1 2] = some s ∧
    s.passed = [(1, 20 * 1024 * 1024), (2, 1)] ∧
    ∀ t, 0 ≤ t → s.passedBy t ≤ byteBurst + byteRate * t := by
  have hexec : ((exec step (create byteRate byteBurst)
      [.takeOrWait (20 * 1024 * 1024) 0 0, .tryTake 1 2]).map (·.passed)) =
        some [(1, 20 * 1024 * 1024), (2, 1)] := by
    decide +kernel
  obtain ⟨s, hs, hpassed⟩ := Option.map_eq_some_iff.mp hexec
  exact ⟨s, hs, hpassed, (passedBy_bounded (by norm_num [byteRate]) (by norm_num [byteBurst])
    (.of_exec hs)).2⟩

end Throttled

end Bluetalk.Relay
