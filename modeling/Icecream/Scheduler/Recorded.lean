import Icecream.Scheduler.Lasting

/-!
# What is noted of a connection

One of the gauges of one connection. It is 0 for a new connection, and apart from the changes
that are about it it stays what it is.
-/

namespace Icecream.IceccScheduler

open Icecream.Fault

namespace Scheduler

variable {α : Type} {f : ℤ × ℤ × UInt32 → α} {s t : Scheduler} {x : ℕ} {n : α}

/-- The gauge `f` of the connection `x` is at `n`, and at 0 before the connection is there. -/
structure Recorded (f : ℤ × ℤ × UInt32 → α) (x : ℕ) (n : α) (s : Scheduler) : Prop where
  value : s.live x = true → f (s.conn x).gauges = n
  early : s.live x = true → x < s.newCid
  unset : s.newCid ≤ x → n = f (0, 0, 0)

theorem Recorded.of_conns (h : Recorded f x n s) (hlive : t.live x = true → s.live x = true)
    (hconn : t.live x = true → f (t.conn x).gauges = f (s.conn x).gauges)
    (hnew : t.newCid = s.newCid) : Recorded f x n t where
  value hx := (hconn hx).trans (h.value (hlive hx))
  early hx := hnew ▸ h.early (hlive hx)
  unset hx := h.unset (hnew ▸ hx)

theorem Recorded.put (h : Recorded f x n s) {c : CompileServer}
    (hsame : f c.gauges = f (s.conn c.cid).gauges) : Recorded f x n (s.put c) := by
  refine h.of_conns (fun hx => by rwa [put_live] at hx) (fun hx => ?_) rfl
  by_cases hc : c.cid = x
  · subst hc
    rw [put_live] at hx
    rw [put_conn_live hx, hsame]
  · rw [put_conn_of_ne hc]

/-- The gauge of one connection is set. -/
theorem Recorded.set (h : Recorded f x n s) {c : CompileServer} (hlive : s.live c.cid = true) :
    Recorded f x (if x = c.cid then f c.gauges else n) (s.put c) := by
  by_cases hc : x = c.cid
  · subst hc
    rw [if_pos rfl]
    exact ⟨fun _ => by rw [put_conn_live hlive], fun _ => h.early hlive,
      fun hnew => absurd (h.early hlive) (not_lt.mpr hnew)⟩
  · rw [if_neg hc]
    refine h.of_conns (fun hx => by rwa [put_live] at hx) (fun _ => ?_) rfl
    rw [put_conn_of_ne (Ne.symm hc)]

theorem recorded_lasting (f : ℤ × ℤ × UInt32 → α) (x : ℕ) (n : α) :
    Lasting (Recorded f x n) where
  aside h hconns _ hnewCid _ _ _ :=
    h.of_conns (fun hx => by simpa only [live, hconns] using hx)
      (fun _ => by simp only [conn, hconns]) hnewCid
  update c h hgauges := h.put (congrArg f hgauges)
  free {s} cid h := by
    refine h.of_conns (fun hx => ?_) (fun hx => ?_) rfl
    · exact ((free_told (.jobLocalDone 0) s cid).conns x hx).1
    · rw [((free_told (.jobLocalDone 0) s cid).conns x hx).2]
  join {s} c h hcid hgauges := by
    constructor
    · intro hx
      by_cases hc : c.cid = x
      · simp only [conn, addConn, asked, List.find?_cons, hc, decide_true, Option.getD_some]
        rw [hgauges, h.unset (hcid ▸ hc.le)]
      · have hold := (addConn_live hx).resolve_left (Ne.symm hc)
        have hsame : (s.addConn c).conn x = s.conn x := by
          simp only [conn, addConn, asked, List.find?_cons, hc, decide_false]
        rw [hsame, h.value hold]
    · intro hx
      change x < s.newCid + 1
      rcases addConn_live hx with rfl | hold
      · omega
      · exact (h.early hold).trans (Nat.lt_succ_self _)
    · intro hnew
      exact h.unset ((Nat.le_succ _).trans hnew)
  relabel j h _ _ := h.of_conns (fun hx => hx) (fun _ => rfl) rfl
  create j h _ _ _ hconns _ hnewCid _ _ _ :=
    h.of_conns (fun hx => by simpa only [live, hconns] using hx)
      (fun _ => by simp only [conn, hconns]) hnewCid
  remove _ h := h.of_conns (fun hx => hx) (fun _ => rfl) rfl

end Scheduler

end Icecream.IceccScheduler
