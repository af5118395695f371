import Mathlib

/-!
# Sliding windows

The times of the events that a limiter let through, oldest first, of which it keeps those that are
still inside a window of a fixed span; and a dictionary of such windows.

* `Keeps`: a window has lost no event that is still inside.
* `Bounded.concat`: a limiter that lets an event through only while it keeps fewer than `n` lets at
  most `n` through in any closed window.
* `Sparse.concat`: the same of a limiter that counts the recent events anew.
* `Tracks`: each window of a dictionary keeps the events of its key. Windows without a live event
  may go (`Tracks.live`), and no more windows stay than live events (`Tracks.length_live_le`).
-/

namespace GenusOs.SlidingWindow

/-! ## A dictionary of windows -/

section Dictionary

variable {κ τ : Type*} [DecidableEq κ]

/-- A dictionary in insertion order. -/
abbrev Windows (κ τ : Type*) := List (κ × List τ)

variable {m : Windows κ τ} {k : κ}

/-- The times of the events of one key. -/
def timesOf (log : List (κ × τ)) (k : κ) : List τ := (log.filter (·.1 = k)).map (·.2)

theorem timesOf_sublist (log : List (κ × τ)) (k : κ) : (timesOf log k).Sublist (log.map (·.2)) :=
  List.filter_sublist.map _

theorem timesOf_concat (log : List (κ × τ)) (k : κ) (u : τ) (k' : κ) :
    timesOf (log ++ [(k, u)]) k' = if k = k' then timesOf log k' ++ [u] else timesOf log k' := by
  unfold timesOf
  rw [List.filter_append, List.map_append]
  by_cases hk : k = k'
  · simp [hk]
  · simp [hk]

/-- `m.get(k)`, where a missing window is an empty one. -/
def windowOf (m : Windows κ τ) (k : κ) : List τ := (m.lookup k).getD []

/-- `m[k] = w`. -/
def put (m : Windows κ τ) (k : κ) (w : List τ) : Windows κ τ :=
  if k ∈ m.map (·.1) then m.map fun e => if e.1 = k then (k, w) else e else m ++ [(k, w)]

theorem window_of_notMem (h : k ∉ m.map (·.1)) : windowOf m k = [] := by
  have hnone : m.lookup k = none := by
    refine List.lookup_eq_none_iff.mpr fun e he => ?_
    simpa using fun heq : k = e.1 => h (heq ▸ List.mem_map_of_mem he)
  rw [windowOf, hnone, Option.getD_none]

theorem window_cons (e : κ × List τ) (m : Windows κ τ) (k : κ) :
    windowOf (e :: m) k = if k = e.1 then e.2 else windowOf m k := by
  unfold windowOf
  rw [List.lookup_cons]
  by_cases hk : k = e.1
  · simp [hk]
  · have hne : (k == e.1) = false := by simpa using hk
    rw [hne, if_neg hk]

/-- The entry of a key is its window. -/
theorem window_of_mem {e : κ × List τ} (hn : (m.map (·.1)).Nodup) (he : e ∈ m) :
    windowOf m e.1 = e.2 := by
  induction m with
  | nil => cases he
  | cons f m ih =>
    rw [List.map_cons, List.nodup_cons] at hn
    rw [window_cons]
    rcases List.mem_cons.mp he with rfl | he
    · rw [if_pos rfl]
    · have hne : e.1 ≠ f.1 := fun heq => hn.1 (heq ▸ List.mem_map_of_mem he)
      rw [if_neg hne, ih hn.2 he]

theorem keys_put (m : Windows κ τ) (k : κ) (w : List τ) : (put m k w).map (·.1) =
    if k ∈ m.map (·.1) then m.map (·.1) else m.map (·.1) ++ [k] := by
  unfold put
  split
  · rw [List.map_map]
    refine List.map_congr_left fun e _ => ?_
    by_cases hk : e.1 = k
    · simp [hk]
    · simp [hk]
  · simp

theorem nodup_put (hn : (m.map (·.1)).Nodup) (w : List τ) : ((put m k w).map (·.1)).Nodup := by
  rw [keys_put]
  split
  · exact hn
  · next hk =>
    refine List.nodup_append.mpr ⟨hn, List.nodup_singleton k, fun x hx y hy heq => hk ?_⟩
    exact List.mem_singleton.mp hy ▸ heq ▸ hx

theorem window_put (m : Windows κ τ) (k : κ) (w : List τ) (k' : κ) :
    windowOf (put m k w) k' = if k' = k then w else windowOf m k' := by
  unfold put
  split
  case isTrue hmem =>
    induction m with
    | nil => cases hmem
    | cons e m ih =>
      rw [List.map_cons, window_cons, window_cons]
      by_cases he : e.1 = k
      · by_cases hk : k' = k
        · simp [he, hk]
        · rw [if_pos he, if_neg hk, if_neg hk, if_neg (by rw [he]; exact hk)]
          by_cases hrest : k ∈ m.map (·.1)
          · rw [ih hrest, if_neg hk]
          · have hsame : m.map (fun e => if e.1 = k then (k, w) else e) = m := by
              refine (List.map_congr_left fun e he => ?_).trans (List.map_id m)
              have hne : e.1 ≠ k := fun heq => hrest (heq ▸ List.mem_map_of_mem he)
              simp [hne]
            rw [hsame]
      · have hrest : k ∈ m.map (·.1) := by
          rcases List.mem_cons.mp hmem with heq | hrest
          · exact absurd heq.symm he
          · exact hrest
        rw [if_neg he, ih hrest]
        by_cases hk : k' = e.1
        · rw [if_pos hk, if_pos hk, if_neg (by rw [hk]; exact he)]
        · rw [if_neg hk, if_neg hk]
  case isFalse hmem =>
    induction m with
    | nil =>
      rw [List.nil_append, window_cons]
    | cons e m ih =>
      have hne : e.1 ≠ k := fun heq => hmem (heq ▸ List.mem_cons_self)
      rw [List.cons_append, window_cons, window_cons, ih fun h => hmem (List.mem_cons_of_mem _ h)]
      by_cases hk : k' = e.1
      · rw [if_pos hk, if_neg (by rw [hk]; exact hne), if_pos hk]
      · rw [if_neg hk]
        simp [hk]

/-- What a filter leaves of the window of a key. -/
theorem window_filter (hn : (m.map (·.1)).Nodup) (p : κ × List τ → Bool) (k : κ) :
    windowOf (m.filter p) k = if p (k, windowOf m k) then windowOf m k else [] := by
  by_cases hk : k ∈ m.map (·.1)
  · obtain ⟨e, he, rfl⟩ := List.mem_map.mp hk
    have hwindow := window_of_mem hn he
    rw [hwindow]
    by_cases hp : p e = true
    · have hfilter : windowOf (m.filter p) e.1 = e.2 :=
        window_of_mem ((List.filter_sublist.map _).nodup hn) (List.mem_filter.mpr ⟨he, hp⟩)
      rw [hfilter, if_pos hp]
    · have hout : e.1 ∉ (m.filter p).map (·.1) := by
        intro hin
        obtain ⟨f, hf, hfe⟩ := List.mem_map.mp hin
        obtain ⟨hfm, hfp⟩ := List.mem_filter.mp hf
        have hsame : f.2 = e.2 := by
          rw [← window_of_mem hn hfm, ← window_of_mem hn he, hfe]
        exact hp (Prod.ext hfe hsame ▸ hfp)
      rw [window_of_notMem hout, if_neg hp]
  · have hout : k ∉ (m.filter p).map (·.1) :=
      fun hin => hk ((List.filter_sublist.map _).subset hin)
    rw [window_of_notMem hk, window_of_notMem hout, ite_self]

end Dictionary

variable {τ : Type*} [AddCommGroup τ] [LinearOrder τ] {span now now' t : τ} {n : Nat}
  {events window : List τ}

/-! ## One window -/

/-- The events in the closed window that starts at `t`. -/
def within (span t : τ) (events : List τ) : List τ :=
  events.filter fun u => decide (t ≤ u) && decide (u ≤ t + span)

/-- At most `n` events in any closed window. -/
def Bounded (n : Nat) (span : τ) (events : List τ) : Prop := ∀ t, (within span t events).length ≤ n

/-- What has left the window at `now`, oldest first. -/
def expire (span now : τ) (window : List τ) : List τ :=
  window.dropWhile fun u => decide (u < now - span)

/-- The window is the events without some that have left it. -/
def Keeps (span now : τ) (events window : List τ) : Prop :=
  ∃ gone, events = gone ++ window ∧ ∀ u ∈ gone, u < now - span

theorem Keeps.nil : Keeps span now [] [] := ⟨[], rfl, nofun⟩

theorem Keeps.sorted (h : Keeps span now events window) (hs : events.Pairwise (· ≤ ·)) :
    window.Pairwise (· ≤ ·) := by
  obtain ⟨gone, rfl, -⟩ := h
  exact (List.pairwise_append.mp hs).2.1

theorem Keeps.subset (h : Keeps span now events window) : window ⊆ events := by
  obtain ⟨gone, rfl, -⟩ := h
  exact List.subset_append_right gone window

/-- Events that have left the window may go. -/
theorem Keeps.drop {gone rest : List τ} (h : Keeps span now events (gone ++ rest))
    (hgone : ∀ u ∈ gone, u < now - span) : Keeps span now events rest := by
  obtain ⟨before, rfl, hbefore⟩ := h
  refine ⟨before ++ gone, (List.append_assoc before gone rest).symm, fun u hu => ?_⟩
  rcases List.mem_append.mp hu with hu | hu
  · exact hbefore u hu
  · exact hgone u hu

theorem Keeps.forget (h : Keeps span now events window) (hall : ∀ u ∈ window, u < now - span) :
    Keeps span now events [] := by
  rw [← List.append_nil window] at h
  exact h.drop hall

theorem Keeps.expire (h : Keeps span now events window) :
    Keeps span now events (expire span now window) := by
  have hsplit : Keeps span now events ((window.takeWhile fun u => decide (u < now - span)) ++
      SlidingWindow.expire span now window) := by
    rw [SlidingWindow.expire, List.takeWhile_append_dropWhile]
    exact h
  refine hsplit.drop fun u hu => ?_
  simpa using List.mem_takeWhile_imp hu

theorem Keeps.concat (h : Keeps span now events window) (u : τ) :
    Keeps span now (events ++ [u]) (window ++ [u]) := by
  obtain ⟨gone, rfl, hgone⟩ := h
  exact ⟨gone, List.append_assoc gone window [u], hgone⟩

theorem within_append (t : τ) (us vs : List τ) :
    within span t (us ++ vs) = within span t us ++ within span t vs := List.filter_append us vs

theorem Bounded.nil : Bounded n span ([] : List τ) := fun _ => Nat.zero_le n

theorem Bounded.sublist {us vs : List τ} (h : Bounded n span vs) (hsub : us.Sublist vs) :
    Bounded n span us :=
  fun t => ((hsub.filter _).length_le).trans (h t)

theorem Keeps.later [IsOrderedAddMonoid τ] (h : Keeps span now events window) (hle : now ≤ now') :
    Keeps span now' events window := by
  obtain ⟨gone, rfl, hgone⟩ := h
  exact ⟨gone, rfl, fun u hu => (hgone u hu).trans_le (sub_le_sub_right hle span)⟩

/-- **One more event.** A closed window that contains `now` starts no earlier than the limiter's. -/
theorem Bounded.concat [IsOrderedAddMonoid τ] (h : Bounded n span events)
    (hk : Keeps span now events window) (hroom : window.length < n) :
    Bounded n span (events ++ [now]) := by
  intro t
  by_cases hin : t ≤ now ∧ now ≤ t + span
  · obtain ⟨gone, rfl, hgone⟩ := hk
    have hnone : within span t gone = [] := by
      refine List.filter_eq_nil_iff.mpr fun u hu hwithin => ?_
      have hstart : t ≤ u := by simpa using (Bool.and_eq_true_iff.mp hwithin).1
      exact absurd ((hgone u hu).trans_le (sub_le_iff_le_add.mpr hin.2)) (not_lt.mpr hstart)
    have hlength : (within span t window).length ≤ window.length := List.length_filter_le _ window
    have hone : (within span t [now]).length ≤ 1 := List.length_filter_le _ [now]
    rw [within_append, within_append, hnone, List.nil_append, List.length_append]
    omega
  · have hout : within span t [now] = [] := by
      refine List.filter_eq_nil_iff.mpr fun u hu hwithin => hin ?_
      obtain rfl := List.mem_singleton.mp hu
      simpa using hwithin
    rw [within_append, hout, List.append_nil]
    exact h t

/-! ## A window that is counted anew -/

/-- The events after `t`, up to a span later. -/
def since (span t : τ) (events : List τ) : List τ :=
  events.filter fun u => decide (t < u) && decide (u ≤ t + span)

/-- At most `n` events in any window that is open at its start. -/
def Sparse (n : Nat) (span : τ) (events : List τ) : Prop := ∀ t, (since span t events).length ≤ n

/-- The events that are still inside at `now`. -/
def recent (span now : τ) (events : List τ) : List τ :=
  events.filter fun u => decide (now - span < u)

theorem Sparse.nil : Sparse n span ([] : List τ) := fun _ => Nat.zero_le n

/-- Later, and in a shorter window, fewer events are recent. -/
theorem length_recent_le [IsOrderedAddMonoid τ] {span' : τ}
    (hspan : span ≤ span') (hnow : now ≤ now') :
    (recent span now' events).length ≤ (recent span' now events).length := by
  rw [recent, recent, ← List.countP_eq_length_filter, ← List.countP_eq_length_filter]
  refine List.countP_mono_left fun u _ hu => ?_
  have hlater : now' - span < u := of_decide_eq_true hu
  exact decide_eq_true ((sub_le_sub hnow hspan).trans_lt hlater)

/-- **One more event**, where fewer than `n` are recent. -/
theorem Sparse.concat [IsOrderedAddMonoid τ] (h : Sparse n span events)
    (hroom : (recent span now events).length < n) :
    Sparse n span (events ++ [now]) := by
  intro t
  rw [since, List.filter_append, List.length_append]
  by_cases hin : now ≤ t + span
  · -- what the window holds so far is recent
    have hrecent : (since span t events).length ≤ (recent span now events).length := by
      rw [since, recent, ← List.countP_eq_length_filter, ← List.countP_eq_length_filter]
      refine List.countP_mono_left fun u _ hu => ?_
      have hafter : t < u := of_decide_eq_true (Bool.and_eq_true_iff.mp hu).1
      exact decide_eq_true ((sub_le_iff_le_add.mpr hin).trans_lt hafter)
    have hone : ([now].filter fun u => decide (t < u) && decide (u ≤ t + span)).length ≤ 1 :=
      List.length_filter_le _ [now]
    rw [since] at hrecent
    omega
  · have hnone : ([now].filter fun u => decide (t < u) && decide (u ≤ t + span)) = [] := by
      simp [hin]
    rw [hnone, List.length_nil, Nat.add_zero]
    exact h t

/-! ## The windows of the keys of a log -/

variable {κ : Type*} [DecidableEq κ] {m : Windows κ τ} {log : List (κ × τ)} {k : κ}

/-- Each window keeps the events of its key. -/
structure Tracks (span now : τ) (log : List (κ × τ)) (m : Windows κ τ) : Prop where
  nodup : (m.map (·.1)).Nodup
  keeps : ∀ k, Keeps span now (timesOf log k) (windowOf m k)

/-- An entry with an event inside the window that ends at `now`. -/
def live (span now : τ) (e : κ × List τ) : Bool :=
  !(e.2.getLast?.all fun u => decide (u < now - span))

omit [DecidableEq κ] in
/-- Where the last event has left the window, all of them have. -/
theorem expired_of_not_live {w : List τ} (hs : w.Pairwise (· ≤ ·))
    (h : live span now (k, w) = false)
    (u : τ) (hu : u ∈ w) : u < now - span := by
  unfold live at h
  rcases List.eq_nil_or_concat w with rfl | ⟨init, last, rfl⟩
  · cases hu
  · rw [List.concat_eq_append] at hs hu h
    have hlast : last < now - span := by simpa using h
    rcases List.mem_append.mp hu with hu | hu
    · exact ((List.pairwise_append.mp hs).2.2 u hu last
        (List.mem_singleton_self last)).trans_lt hlast
    · exact List.mem_singleton.mp hu ▸ hlast

namespace Tracks

theorem nil : Tracks span now ([] : List (κ × τ)) [] := ⟨List.nodup_nil, fun _ => .nil⟩

theorem later [IsOrderedAddMonoid τ] (h : Tracks span now log m) (hle : now ≤ now') :
    Tracks span now' log m :=
  ⟨h.nodup, fun k => (h.keeps k).later hle⟩

theorem put (h : Tracks span now log m) {w : List τ} (hw : Keeps span now (timesOf log k) w) :
    Tracks span now log (put m k w) := by
  refine ⟨nodup_put h.nodup w, fun k' => ?_⟩
  rw [window_put]
  split
  · next hk => exact hk ▸ hw
  · exact h.keeps k'

/-- One more event of a key, with the window it is put in. -/
theorem concat (h : Tracks span now log m) {w : List τ} (hw : Keeps span now (timesOf log k) w)
    (u : τ) : Tracks span now (log ++ [(k, u)]) (SlidingWindow.put m k (w ++ [u])) := by
  refine ⟨nodup_put h.nodup _, fun k' => ?_⟩
  rw [window_put, timesOf_concat]
  by_cases hk : k' = k
  · subst hk
    rw [if_pos rfl, if_pos rfl]
    exact hw.concat u
  · rw [if_neg hk, if_neg (Ne.symm hk)]
    exact h.keeps k'

/-- The windows without a live event may go. -/
theorem live (h : Tracks span now log m) (hs : (log.map (·.2)).Pairwise (· ≤ ·)) :
    Tracks span now log (m.filter (live span now)) := by
  refine ⟨(List.filter_sublist.map _).nodup h.nodup, fun k => ?_⟩
  rw [window_filter h.nodup]
  split
  · exact h.keeps k
  · next hdead =>
    have hsorted := (h.keeps k).sorted (hs.sublist (timesOf_sublist log k))
    exact (h.keeps k).forget (expired_of_not_live hsorted (Bool.eq_false_iff.mpr hdead))

/-- A live window has an event of the log inside. -/
theorem length_live_le (h : Tracks span now log m) (hnow : ∀ e ∈ log, e.2 ≤ now) :
    (m.filter (SlidingWindow.live span now)).length ≤
      (within span (now - span) (log.map (·.2))).length := by
  have hnodup : ((m.filter (SlidingWindow.live span now)).map (·.1)).Nodup :=
    (List.filter_sublist.map _).nodup h.nodup
  have hsub : (m.filter (SlidingWindow.live span now)).map (·.1) ⊆
      (log.filter fun e => decide (now - span ≤ e.2) && decide (e.2 ≤ now - span + span)).map
        (·.1) := by
    intro k hk
    obtain ⟨e, he, rfl⟩ := List.mem_map.mp hk
    obtain ⟨hem, hlive⟩ := List.mem_filter.mp he
    obtain ⟨u, hu, hinside⟩ : ∃ u ∈ e.2, now - span ≤ u := by
      unfold SlidingWindow.live at hlive
      cases hlast : e.2.getLast? with
      | none => simp [hlast] at hlive
      | some u => exact ⟨u, List.mem_of_getLast? hlast, by simpa [hlast] using hlive⟩
    have htimes : u ∈ timesOf log e.1 := (h.keeps e.1).subset (window_of_mem h.nodup hem ▸ hu)
    obtain ⟨f, hf, rfl⟩ := List.mem_map.mp htimes
    obtain ⟨hflog, hfk⟩ := List.mem_filter.mp hf
    refine List.mem_map.mpr ⟨f, List.mem_filter.mpr ⟨hflog, ?_⟩, by simpa using hfk⟩
    rw [sub_add_cancel, Bool.and_eq_true, decide_eq_true_iff, decide_eq_true_iff]
    exact ⟨hinside, hnow f hflog⟩
  have hle := (hnodup.subperm hsub).length_le
  rw [List.length_map, List.length_map] at hle
  have hwithin : within span (now - span) (log.map (·.2)) =
      (log.filter fun e => decide (now - span ≤ e.2) && decide (e.2 ≤ now - span + span)).map
        (·.2) := List.filter_map
  rw [hwithin, List.length_map]
  exact hle

end Tracks

/-- One more event of a key whose window has room. -/
theorem bounded_timesOf_concat [IsOrderedAddMonoid τ] (h : ∀ k, Bounded n span (timesOf log k))
    {w : List τ} (hw : Keeps span now (timesOf log k) w) (hroom : w.length < n) (k' : κ) :
    Bounded n span (timesOf (log ++ [(k, now)]) k') := by
  rw [timesOf_concat]
  split
  · next hk => exact hk ▸ (h k).concat hw hroom
  · exact h k'

end GenusOs.SlidingWindow
