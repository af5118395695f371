import GenusOs.Library.SlidingWindow
import Mathlib

/-!
# The rate limits of the credential routes

`flood_limited` counts the requests of a peer and of the process, `_rate_limited` those of a key and
an address. Both keep the times of the last minute in deques, in dictionaries that are pruned when
they are full: first the windows without a live attempt go, then, if that is not enough, the oldest
tenth. Clock readings are rationals.

* `prune_eq_live`: the second pass never runs while few attempts are live.
* `rate_limits_hold`: over any requests the three limits hold in every closed minute, neither
  dictionary outgrows its cap, and pruning forgets no live attempt.
-/

namespace GenusOs.Auth.RateLimits

open SlidingWindow

/-! ## The limiters -/

def RATE_LIMIT_ATTEMPTS : Nat := 5

def RATE_LIMIT_WINDOW_SECONDS : Rat := 60

def RATE_LIMIT_MAX_KEYS : Nat := 10000

def FLOOD_WINDOW_SECONDS : Rat := 60

def FLOOD_PEER_ATTEMPTS : Nat := 30

def FLOOD_GLOBAL_ATTEMPTS : Nat := 300

def FLOOD_MAX_PEERS : Nat := 10000

section Windows

variable {κ : Type} [DecidableEq κ] (cap : Nat) (cutoff : Rat) (m : Windows κ Rat)

/-- `not window or window[-1] < cutoff`. -/
def isDead (window : List Rat) : Bool := window.getLast?.all fun u => decide (u < cutoff)

/-- The sort key `_last_attempt`, where an empty window is infinitely old. -/
def lastAttempt (e : κ × List Rat) : WithBot Rat := e.2.getLast?

/-- Both passes over a dictionary that is full. -/
def prune : Windows κ Rat :=
  let kept := m.filter fun e => !isDead cutoff e.2
  if cap ≤ kept.length then
    let snapshot := kept.mergeSort fun a b => decide (lastAttempt a ≤ lastAttempt b)
    let oldest := (snapshot.take (cap / 10)).map (·.1)
    kept.filter fun e => decide (e.1 ∉ oldest)
  else kept

/-- The dictionary with a window for the key: a new one may make the dictionary prune first. -/
def withWindow (k : κ) : Windows κ Rat :=
  if k ∈ m.map (·.1) then m
  else put (if cap ≤ m.length then prune cap cutoff m else m) k []

end Windows

/-- `_prune_peers` -/
def prunePeers (cutoff : Rat) (peers : Windows String Rat) : Windows String Rat :=
  prune FLOOD_MAX_PEERS cutoff peers

/-- `_prune` -/
def pruneAttempts (cutoff : Rat) (attempts : Windows (String × String) Rat) :
    Windows (String × String) Rat := prune RATE_LIMIT_MAX_KEYS cutoff attempts

/-- The state behind `_FLOOD_LOCK`. -/
structure Flood where
  peerAttempts : Windows String Rat := []
  globalAttempts : List Rat := []
  alarmAt : Rat := 0

/-- Whether the request is refused, and the scope that is logged with the refusal. -/
structure Verdict where
  refused : Bool
  logged : Option String := none
  deriving DecidableEq, Repr

/-- `peer or "-"` -/
def orDash (name : Option String) : String := if name.getD "" = "" then "-" else name.getD ""

/-- `flood_limited` -/
def floodLimited (now : Rat) (peer : Option String) (s : Flood) : Verdict × Flood :=
  let cutoff := now - FLOOD_WINDOW_SECONDS
  let key := orDash peer
  let global := s.globalAttempts.dropWhile fun u => decide (u < cutoff)
  let peers := withWindow FLOOD_MAX_PEERS cutoff s.peerAttempts key
  let window := (windowOf peers key).dropWhile fun u => decide (u < cutoff)
  let overPeer := FLOOD_PEER_ATTEMPTS ≤ window.length
  if overPeer ∨ FLOOD_GLOBAL_ATTEMPTS ≤ global.length then
    let alarm := FLOOD_WINDOW_SECONDS ≤ now - s.alarmAt
    let scope := if overPeer then "one peer" else "this process"
    ({ refused := true, logged := if alarm then some scope else none },
      { peerAttempts := put peers key window
        globalAttempts := global
        alarmAt := if alarm then now else s.alarmAt })
  else
    ({ refused := false },
      { s with
        peerAttempts := put peers key (window ++ [now])
        globalAttempts := global ++ [now] })

/-- `_rate_limited` -/
def rateLimited (now : Rat) (email : String) (ip : Option String)
    (attempts : Windows (String × String) Rat) : Bool × Windows (String × String) Rat :=
  let key := (email, orDash ip)
  let cutoff := now - RATE_LIMIT_WINDOW_SECONDS
  let attempts := withWindow RATE_LIMIT_MAX_KEYS cutoff attempts key
  let window := (windowOf attempts key).dropWhile fun u => decide (u < cutoff)
  if RATE_LIMIT_ATTEMPTS ≤ window.length then (true, put attempts key window)
  else (false, put attempts key (window ++ [now]))

/-! ## A credential route -/

structure Request where
  now : Rat
  peer : Option String
  key : String
  ip : Option String
  deriving DecidableEq, Repr

inductive Outcome | flooded | throttled | admitted
  deriving DecidableEq, Repr

/-- The limiters of one process. -/
structure Limiters where
  flood : Flood := {}
  attempts : Windows (String × String) Rat := []

/-- Both limiters in front of a credential route. -/
def serve (s : Limiters) (r : Request) : Outcome × Limiters :=
  let (verdict, flood) := floodLimited r.now r.peer s.flood
  if verdict.refused then (.flooded, { s with flood })
  else
    let (limited, attempts) := rateLimited r.now r.key r.ip s.attempts
    (if limited then .throttled else .admitted, { flood, attempts })

/-- The requests with their outcomes so far, oldest first. -/
structure Served where
  log : List (Request × Outcome) := []
  limiters : Limiters := {}

def Served.next (s : Served) (r : Request) : Served :=
  let (outcome, limiters) := serve s.limiters r
  { log := s.log ++ [(r, outcome)], limiters }

def serveAll (rs : List Request) : Served := rs.foldl Served.next {}

/-! ## Pruning -/

section Windows

variable {κ : Type} [DecidableEq κ] {cap : Nat} {span now : Rat} {m : Windows κ Rat}
  {log : List (κ × Rat)}

omit [DecidableEq κ] in
theorem filter_isDead (span now : Rat) (m : Windows κ Rat) :
    (m.filter fun e => !isDead (now - span) e.2) = m.filter (live span now) := rfl

/-- The second pass never runs while few attempts are live. -/
theorem prune_eq_live (h : Tracks span now log m) (hnow : ∀ e ∈ log, e.2 ≤ now)
    (hb : Bounded FLOOD_GLOBAL_ATTEMPTS span (log.map (·.2))) (hcap : FLOOD_GLOBAL_ATTEMPTS < cap) :
    prune cap (now - span) m = m.filter (live span now) ∧
      (m.filter (live span now)).length < cap := by
  have hfew : (m.filter (live span now)).length < cap :=
    ((h.length_live_le hnow).trans (hb (now - span))).trans_lt hcap
  unfold prune
  dsimp only
  rw [filter_isDead, if_neg (not_le.mpr hfew)]
  exact ⟨rfl, hfew⟩

/-- A window with a live attempt stays whole. -/
theorem window_prune (h : Tracks span now log m) (hs : (log.map (·.2)).Pairwise (· ≤ ·))
    (hnow : ∀ e ∈ log, e.2 ≤ now) (hb : Bounded FLOOD_GLOBAL_ATTEMPTS span (log.map (·.2)))
    (hcap : FLOOD_GLOBAL_ATTEMPTS < cap) {k : κ} {u : Rat} (hu : u ∈ windowOf m k)
    (hlive : now - span ≤ u) : u ∈ windowOf (prune cap (now - span) m) k := by
  rw [(prune_eq_live h hnow hb hcap).1, window_filter h.nodup]
  split
  · exact hu
  · next hdead =>
    have hsorted := (h.keeps k).sorted (hs.sublist (timesOf_sublist log k))
    exact absurd (expired_of_not_live hsorted (Bool.eq_false_iff.mpr hdead) u hu)
      (not_lt.mpr hlive)

theorem length_put_of_mem {k : κ} (hk : k ∈ m.map (·.1)) (w : List Rat) :
    (put m k w).length = m.length := by
  unfold put
  rw [if_pos hk, List.length_map]

theorem length_put_of_notMem {k : κ} (hk : k ∉ m.map (·.1)) (w : List Rat) :
    (put m k w).length = m.length + 1 := by
  unfold put
  rw [if_neg hk, List.length_append, List.length_singleton]

theorem mem_keys_put (m : Windows κ Rat) (k : κ) (w : List Rat) : k ∈ (put m k w).map (·.1) := by
  rw [keys_put]
  split
  · next hk => exact hk
  · exact List.mem_append_right _ (List.mem_singleton_self k)

/-- What a request finds: no attempt is forgotten, its key has a window, and the cap holds. -/
theorem withWindow_spec (h : Tracks span now log m) (hs : (log.map (·.2)).Pairwise (· ≤ ·))
    (hnow : ∀ e ∈ log, e.2 ≤ now) (hb : Bounded FLOOD_GLOBAL_ATTEMPTS span (log.map (·.2)))
    (hcap : FLOOD_GLOBAL_ATTEMPTS < cap) (hlen : m.length ≤ cap) (k : κ) :
    Tracks span now log (withWindow cap (now - span) m k) ∧
      k ∈ (withWindow cap (now - span) m k).map (·.1) ∧
      (withWindow cap (now - span) m k).length ≤ cap := by
  unfold withWindow
  split
  · next hk => exact ⟨h, hk, hlen⟩
  next hk =>
  obtain ⟨hprune, hfew⟩ := prune_eq_live h hnow hb hcap
  rw [hprune]
  split
  case isTrue hfull =>
    have hout : k ∉ (m.filter (live span now)).map (·.1) :=
      fun hin => hk ((List.filter_sublist.map _).subset hin)
    have hlive := h.live hs
    have hempty := hlive.keeps k
    rw [window_of_notMem hout] at hempty
    refine ⟨hlive.put hempty, mem_keys_put _ k [], ?_⟩
    rw [length_put_of_notMem hout]
    omega
  case isFalse hroom =>
    have hempty := h.keeps k
    rw [window_of_notMem hk] at hempty
    refine ⟨h.put hempty, mem_keys_put m k [], ?_⟩
    rw [length_put_of_notMem hk]
    omega

end Windows

/-! ## The two limiters -/

/-- The invariant of `flood_limited`, where `log` holds the requests it let through. -/
structure Flood.Inv (now : Rat) (log : List (String × Rat)) (s : Flood) : Prop where
  sorted : (log.map (·.2)).Pairwise (· ≤ ·)
  past : ∀ e ∈ log, e.2 ≤ now
  peers : Tracks FLOOD_WINDOW_SECONDS now log s.peerAttempts
  total : Keeps FLOOD_WINDOW_SECONDS now (log.map (·.2)) s.globalAttempts
  totalBound : Bounded FLOOD_GLOBAL_ATTEMPTS FLOOD_WINDOW_SECONDS (log.map (·.2))
  peerBound : ∀ k, Bounded FLOOD_PEER_ATTEMPTS FLOOD_WINDOW_SECONDS (timesOf log k)
  cap : s.peerAttempts.length ≤ FLOOD_MAX_PEERS

/-- The invariant of `_rate_limited`. -/
structure PairInv (now : Rat) (log : List ((String × String) × Rat))
    (m : Windows (String × String) Rat) : Prop where
  sorted : (log.map (·.2)).Pairwise (· ≤ ·)
  past : ∀ e ∈ log, e.2 ≤ now
  pairs : Tracks RATE_LIMIT_WINDOW_SECONDS now log m
  pairBound : ∀ k, Bounded RATE_LIMIT_ATTEMPTS RATE_LIMIT_WINDOW_SECONDS (timesOf log k)
  cap : m.length ≤ RATE_LIMIT_MAX_KEYS

theorem sorted_concat {κ : Type} {log : List (κ × Rat)} {now : Rat}
    (hs : (log.map (·.2)).Pairwise (· ≤ ·)) (hpast : ∀ e ∈ log, e.2 ≤ now) (k : κ) :
    ((log ++ [(k, now)]).map (·.2)).Pairwise (· ≤ ·) ∧ ∀ e ∈ log ++ [(k, now)], e.2 ≤ now := by
  constructor
  · rw [List.map_append, List.pairwise_append]
    refine ⟨hs, List.pairwise_singleton _ now, fun u hu v hv => ?_⟩
    obtain ⟨e, he, rfl⟩ := List.mem_map.mp hu
    obtain rfl : v = now := by simpa using hv
    exact hpast e he
  · intro e he
    rcases List.mem_append.mp he with he | he
    · exact hpast e he
    · rw [List.mem_singleton.mp he]

variable {now now' : Rat}

theorem Flood.Inv.later {log : List (String × Rat)} {s : Flood} (h : s.Inv now log)
    (hle : now ≤ now') : s.Inv now' log :=
  { h with
    past := fun e he => (h.past e he).trans hle
    peers := h.peers.later hle
    total := h.total.later hle }

theorem PairInv.later {log : List ((String × String) × Rat)} {m : Windows (String × String) Rat}
    (h : PairInv now log m) (hle : now ≤ now') : PairInv now' log m :=
  { h with
    past := fun e he => (h.past e he).trans hle
    pairs := h.pairs.later hle }

/-- One call of `flood_limited`. -/
theorem floodLimited_spec {log : List (String × Rat)} {s : Flood} (h : s.Inv now log)
    (peer : Option String) :
    (floodLimited now peer s).2.Inv now
      (if (floodLimited now peer s).1.refused then log else log ++ [(orDash peer, now)]) := by
  obtain ⟨htracks, hkey, hlen⟩ := withWindow_spec h.peers h.sorted h.past h.totalBound
    (by decide : FLOOD_GLOBAL_ATTEMPTS < FLOOD_MAX_PEERS) h.cap (orDash peer)
  have hwindow := (htracks.keeps (orDash peer)).expire
  have htotal := h.total.expire
  unfold floodLimited
  dsimp only
  split
  case isTrue =>
    exact { h with peers := htracks.put hwindow, total := htotal
                   cap := (length_put_of_mem hkey _).trans_le hlen }
  case isFalse hroom =>
    obtain ⟨hpeer, hglobal⟩ := not_or.mp hroom
    obtain ⟨hsorted, hpast⟩ := sorted_concat h.sorted h.past (orDash peer)
    rw [if_neg Bool.false_ne_true]
    refine ⟨hsorted, hpast, htracks.concat hwindow now, ?_, ?_, ?_, ?_⟩
    · rw [List.map_append]
      exact htotal.concat now
    · rw [List.map_append]
      exact h.totalBound.concat htotal (not_le.mp hglobal)
    · exact bounded_timesOf_concat h.peerBound hwindow (not_le.mp hpeer)
    · exact (length_put_of_mem hkey _).trans_le hlen

/-- One call of `_rate_limited`, behind `flood_limited`. -/
theorem rateLimited_spec {log : List ((String × String) × Rat)} {m : Windows (String × String) Rat}
    (h : PairInv now log m)
    (hb : Bounded FLOOD_GLOBAL_ATTEMPTS RATE_LIMIT_WINDOW_SECONDS (log.map (·.2)))
    (email : String) (ip : Option String) :
    PairInv now (if (rateLimited now email ip m).1 then log else log ++ [((email, orDash ip), now)])
      (rateLimited now email ip m).2 := by
  obtain ⟨htracks, hkey, hlen⟩ := withWindow_spec h.pairs h.sorted h.past hb
    (by decide : FLOOD_GLOBAL_ATTEMPTS < RATE_LIMIT_MAX_KEYS) h.cap (email, orDash ip)
  have hwindow := (htracks.keeps (email, orDash ip)).expire
  unfold rateLimited
  dsimp only
  split
  case isTrue =>
    exact { h with pairs := htracks.put hwindow
                   cap := (length_put_of_mem hkey _).trans_le hlen }
  case isFalse hroom =>
    obtain ⟨hsorted, hpast⟩ := sorted_concat h.sorted h.past (email, orDash ip)
    exact ⟨hsorted, hpast, htracks.concat hwindow now,
      bounded_timesOf_concat h.pairBound hwindow (not_le.mp hroom),
      (length_put_of_mem hkey _).trans_le hlen⟩

/-! ## Any requests -/

/-- The requests that `flood_limited` let through, under their peers. -/
def floodLog (log : List (Request × Outcome)) : List (String × Rat) :=
  (log.filter (·.2 ≠ .flooded)).map fun e => (orDash e.1.peer, e.1.now)

/-- The requests that both limiters let through, under their keys and addresses. -/
def pairLog (log : List (Request × Outcome)) : List ((String × String) × Rat) :=
  (log.filter (·.2 = .admitted)).map fun e => ((e.1.key, orDash e.1.ip), e.1.now)

theorem floodLog_concat (log : List (Request × Outcome)) (r : Request) (outcome : Outcome) :
    floodLog (log ++ [(r, outcome)]) =
      if outcome = .flooded then floodLog log else floodLog log ++ [(orDash r.peer, r.now)] := by
  unfold floodLog
  rw [List.filter_append, List.map_append]
  cases outcome <;> simp

theorem pairLog_concat (log : List (Request × Outcome)) (r : Request) (outcome : Outcome) :
    pairLog (log ++ [(r, outcome)]) =
      if outcome = .admitted then pairLog log ++ [((r.key, orDash r.ip), r.now)]
        else pairLog log := by
  unfold pairLog
  rw [List.filter_append, List.map_append]
  cases outcome <;> simp

/-- What both limiters let through is among what the first one does. -/
theorem pairLog_sublist (log : List (Request × Outcome)) :
    ((pairLog log).map (·.2)).Sublist ((floodLog log).map (·.2)) := by
  unfold pairLog floodLog
  rw [List.map_map, List.map_map]
  refine (List.monotone_filter_right log fun e he => ?_).map _
  have hadmitted : e.2 = .admitted := by simpa using he
  simp [hadmitted]

structure Served.Inv (now : Rat) (s : Served) : Prop where
  flood : s.limiters.flood.Inv now (floodLog s.log)
  pairs : PairInv now (pairLog s.log) s.limiters.attempts

theorem Served.Inv.bound {s : Served} (h : s.Inv now) :
    Bounded FLOOD_GLOBAL_ATTEMPTS RATE_LIMIT_WINDOW_SECONDS ((pairLog s.log).map (·.2)) :=
  h.flood.totalBound.sublist (pairLog_sublist s.log)

theorem inv_next {s : Served} (h : s.Inv now) (r : Request) (hle : now ≤ r.now) :
    (s.next r).Inv r.now := by
  have hflood := floodLimited_spec (h.flood.later hle) r.peer
  have hpairs := rateLimited_spec (h.pairs.later hle) h.bound r.key r.ip
  unfold Served.next serve
  generalize floodLimited r.now r.peer s.limiters.flood = answer at hflood ⊢
  generalize rateLimited r.now r.key r.ip s.limiters.attempts = answer' at hpairs ⊢
  obtain ⟨verdict, flood⟩ := answer
  obtain ⟨limited, attempts⟩ := answer'
  dsimp only at hflood hpairs ⊢
  by_cases hrefused : verdict.refused = true
  · rw [if_pos hrefused] at hflood ⊢
    refine ⟨?_, ?_⟩
    · rw [floodLog_concat, if_pos rfl]
      exact hflood
    · rw [pairLog_concat, if_neg (by rintro ⟨⟩)]
      exact h.pairs.later hle
  · rw [if_neg hrefused] at hflood ⊢
    cases limited with
    | true =>
      refine ⟨?_, ?_⟩
      · rw [floodLog_concat, if_pos rfl, if_neg (by rintro ⟨⟩)]
        exact hflood
      · rw [pairLog_concat, if_pos rfl, if_neg (by rintro ⟨⟩)]
        exact hpairs
    | false =>
      refine ⟨?_, ?_⟩
      · rw [floodLog_concat, if_neg Bool.false_ne_true, if_neg (by rintro ⟨⟩)]
        exact hflood
      · rw [pairLog_concat, if_neg Bool.false_ne_true, if_pos rfl]
        exact hpairs

/-- The invariant after any requests, at any time that is not before them. -/
theorem inv_serveAll {rs : List Request} (hclock : (rs.map (·.now)).Pairwise (· ≤ ·))
    (hnow : ∀ r ∈ rs, r.now ≤ now) : (serveAll rs).Inv now := by
  induction rs using List.reverseRecOn generalizing now with
  | nil =>
    refine ⟨⟨.nil, nofun, .nil, .nil, .nil, fun _ => .nil, Nat.zero_le _⟩,
      ⟨.nil, nofun, .nil, fun _ => .nil, Nat.zero_le _⟩⟩
  | append_singleton rs r ih =>
    rw [List.map_append, List.pairwise_append] at hclock
    have hbefore : (serveAll rs).Inv r.now :=
      ih hclock.1 fun q hq => hclock.2.2 _ (List.mem_map_of_mem hq) _ (List.mem_singleton_self _)
    have hafter := inv_next hbefore r le_rfl
    have hle : r.now ≤ now := hnow r (List.mem_append_right _ (List.mem_singleton_self r))
    have hrun : serveAll (rs ++ [r]) = (serveAll rs).next r := List.foldl_append ..
    rw [hrun]
    exact ⟨hafter.flood.later hle, hafter.pairs.later hle⟩

/-- How many requests that meet `p` are in the closed minute from `t` on. -/
def countIn (log : List (Request × Outcome)) (t : Rat) (p : Request × Outcome → Bool) : Nat :=
  log.countP fun e => p e && (decide (t ≤ e.1.now) && decide (e.1.now ≤ t + 60))

theorem within_times (log : List (Request × Outcome)) (t : Rat) (p : Request × Outcome → Bool) :
    (within 60 t ((log.filter p).map (·.1.now))).length = countIn log t p := by
  unfold within countIn
  rw [List.filter_map, List.length_map, List.filter_filter, List.countP_eq_length_filter]
  congr 2
  funext e
  exact Bool.and_comm _ _

theorem timesOf_floodLog (log : List (Request × Outcome)) (peer : String) :
    timesOf (floodLog log) peer =
      (log.filter fun e => decide (e.2 ≠ .flooded) && decide (orDash e.1.peer = peer)).map
        (·.1.now) := by
  unfold timesOf floodLog
  rw [List.filter_map, List.map_map, List.filter_filter]
  refine congrArg (List.map fun e : Request × Outcome => e.1.now) (List.filter_congr fun e _ => ?_)
  exact Bool.and_comm _ _

theorem timesOf_pairLog (log : List (Request × Outcome)) (pair : String × String) :
    timesOf (pairLog log) pair =
      (log.filter fun e => decide (e.2 = .admitted) && decide ((e.1.key, orDash e.1.ip) = pair)).map
        (·.1.now) := by
  unfold timesOf pairLog
  rw [List.filter_map, List.map_map, List.filter_filter]
  refine congrArg (List.map fun e : Request × Outcome => e.1.now) (List.filter_congr fun e _ => ?_)
  exact Bool.and_comm _ _

/-- **Credential rate limits hold under key flooding.** After any requests with a clock that does
not go back: in every closed minute at most 5 of a key and address were admitted, at most 30 of a
peer and at most 300 in all were let through to the second limiter; neither dictionary exceeds its
cap; and pruning either, at any later time, forgets no attempt that is still inside its window. -/
theorem rate_limits_hold {rs : List Request} (hclock : (rs.map (·.now)).Pairwise (· ≤ ·)) :
    (∀ t pair, countIn (serveAll rs).log t (fun e =>
      decide (e.2 = .admitted) && decide ((e.1.key, orDash e.1.ip) = pair)) ≤ 5) ∧
    (∀ t peer, countIn (serveAll rs).log t (fun e =>
      decide (e.2 ≠ .flooded) && decide (orDash e.1.peer = peer)) ≤ 30) ∧
    (∀ t, countIn (serveAll rs).log t (fun e => decide (e.2 ≠ .flooded)) ≤ 300) ∧
    (serveAll rs).limiters.flood.peerAttempts.length ≤ FLOOD_MAX_PEERS ∧
    (serveAll rs).limiters.attempts.length ≤ RATE_LIMIT_MAX_KEYS ∧
    ∀ now, (∀ r ∈ rs, r.now ≤ now) →
      (∀ peer u, u ∈ windowOf (serveAll rs).limiters.flood.peerAttempts peer → now - 60 ≤ u →
        u ∈ windowOf (prunePeers (now - 60) (serveAll rs).limiters.flood.peerAttempts) peer) ∧
      ∀ pair u, u ∈ windowOf (serveAll rs).limiters.attempts pair → now - 60 ≤ u →
        u ∈ windowOf (pruneAttempts (now - 60) (serveAll rs).limiters.attempts) pair := by
  obtain ⟨last, hlast⟩ : ∃ last, ∀ r ∈ rs, r.now ≤ last := by
    obtain ⟨last, hlast⟩ := (rs.map (·.now)).toFinset.exists_le
    exact ⟨last, fun r hr => hlast _ (List.mem_toFinset.mpr (List.mem_map_of_mem hr))⟩
  have hinv := inv_serveAll hclock hlast
  refine ⟨fun t pair => ?_, fun t peer => ?_, fun t => ?_, hinv.flood.cap, hinv.pairs.cap,
    fun now hnow => ?_⟩
  · rw [← within_times, ← timesOf_pairLog]
    exact hinv.pairs.pairBound pair t
  · rw [← within_times, ← timesOf_floodLog]
    exact hinv.flood.peerBound peer t
  · have htotal := hinv.flood.totalBound t
    unfold floodLog at htotal
    rw [List.map_map] at htotal
    rw [← within_times]
    exact htotal
  · have hlater := inv_serveAll hclock hnow
    exact ⟨fun peer u hu hlive => window_prune hlater.flood.peers hlater.flood.sorted
        hlater.flood.past hlater.flood.totalBound
        (by decide : FLOOD_GLOBAL_ATTEMPTS < FLOOD_MAX_PEERS) hu hlive,
      fun pair u hu hlive => window_prune hlater.pairs.pairs hlater.pairs.sorted
        hlater.pairs.past hlater.bound
        (by decide : FLOOD_GLOBAL_ATTEMPTS < RATE_LIMIT_MAX_KEYS) hu hlive⟩

/-- Six requests of one address for one key within a second. -/
def hammering : List Request :=
  [⟨0, some "peer", "login:a", none⟩, ⟨1 / 10, some "peer", "login:a", none⟩,
    ⟨2 / 10, some "peer", "login:a", none⟩, ⟨3 / 10, some "peer", "login:a", none⟩,
    ⟨4 / 10, some "peer", "login:a", none⟩, ⟨5 / 10, some "peer", "login:a", none⟩]

/-- Five of them are admitted. -/
theorem hammering_limited :
    countIn (serveAll hammering).log 0 (fun e => decide (e.2 = .admitted) &&
      decide ((e.1.key, orDash e.1.ip) = ("login:a", "-"))) ≤ 5 :=
  (rate_limits_hold (by decide +kernel)).1 0 ("login:a", "-")

end GenusOs.Auth.RateLimits
