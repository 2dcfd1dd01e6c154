import Icecream.Scheduler.Handled

/-!
# Commands

What the commands of a control connection, or of anyone else who sends lines, leave.
Only `removecs` and `blockcs` close connections, those of the servers they name.
-/

namespace Icecream.IceccScheduler

open Icecream.Comm
open Icecream.Fault

namespace Scheduler

variable {mode : Mode} {lost : ℕ → Prop} {s : Scheduler} {cid : ℕ}

theorem Facts.jobLive {ptr : ℕ} (h : Facts mode [] s) (hjob : s.liveJob ptr = true)
    (hstrict : mode.strict) : s.live (s.job ptr).submitter = true ∧
      ∀ server, (s.job ptr).server = some server → s.live server = true := by
  obtain ⟨hmem, hptr⟩ := job_mem hjob
  have hlisted := h.tasks.listed (mode.strict_numbered hstrict) _ hmem
  obtain ⟨-, -, -, hhome⟩ := (h.tasks.jobs _ hlisted).job h.tasks.ptrs
  simp only [hptr] at hhome
  obtain ⟨hsubmitter, hserver⟩ := hhome (mode.strict_tame hstrict)
  exact ⟨hsubmitter.live h.peers, fun server hs => (hserver server hs).live h.peers⟩

theorem dumpJob_ends (ptr : ℕ) (h : Facts mode [] s) :
    Ends (tolerated mode) (fun _ => True) (s.dumpJob ptr) := by
  unfold dumpJob
  refine touchJob_ends.bind fun _ hjob => ?_
  refine (touch_ends fun hstrict => (h.jobLive hjob hstrict).1).bind fun _ _ => ?_
  cases hserver : (s.job ptr).server with
  | none => exact .pure trivial
  | some server =>
    have htouch := touch_ends fun hstrict => (h.jobLive hjob hstrict).2 server hserver
    exact htouch.mono fun _ _ => trivial

theorem sendText_still (hlive : mode.strict → s.live cid = true) :
    Ends (tolerated mode) (fun r => Still s r.1) (s.sendText cid) := by
  have hsend := send_still (s := s.asked) (m := .text s.text) hlive rfl
  exact hsend.mono fun r hr => (Still.asked s).trans hr.1

theorem sendEach_still {α : Type} {used : Scheduler → α → Except Fault Unit} {l : List α}
    (h : Facts mode [] s) (hlive : mode.strict → s.live cid = true)
    (hused : ∀ t, Facts mode [] t → ∀ x ∈ l, Ends (tolerated mode) (fun _ => True) (used t x)) :
    Ends (tolerated mode) (fun r => Still s r.1) (sendEach cid used l s) := by
  induction l generalizing s with
  | nil => exact .pure (.refl s)
  | cons x rest ih =>
    refine (hused s h x List.mem_cons_self).bind fun _ _ => ?_
    refine (sendText_still hlive).bind fun r hr => ?_
    refine .ite (fun _ => ?_) fun _ => .pure hr
    have hrest := ih (hr.toAside.facts h) (fun hstrict => hr.live ▸ hlive hstrict)
      fun t ht y hy => hused t ht y (List.mem_cons_of_mem _ hy)
    exact hrest.mono fun u hu => hr.trans hu

theorem listServers_still {l : List ℕ} (h : Facts mode [] s)
    (hlive : mode.strict → s.live cid = true) (hl : l ⊆ s.css) :
    Ends (tolerated mode) (fun r => Still s r.1) (listServers cid l s) := by
  induction l generalizing s with
  | nil => exact .pure (.refl s)
  | cons other rest ih =>
    have hother := h.peers.css other (hl List.mem_cons_self)
    refine (touch_ends fun _ => hother.live).bind fun _ _ => ?_
    refine (sendText_still hlive).bind fun r hr => ?_
    refine .ite (fun _ => ?_) fun _ => .pure hr
    have hrlive : mode.strict → r.1.live cid = true := fun hstrict => hr.live ▸ hlive hstrict
    refine (sendEach_still (hr.toAside.facts h) hrlive fun t ht ptr _ =>
      dumpJob_ends ptr ht).bind fun u hu => ?_
    have hstill := hr.trans hu
    refine .ite (fun _ => ?_) fun _ => .pure hstill
    refine (ih (hstill.toAside.facts h) (fun hstrict => hu.live ▸ hrlive hstrict) ?_).mono
      fun v hv => hstill.trans hv
    rw [hstill.same]
    exact fun x hx => hl (List.mem_cons_of_mem _ hx)

theorem askInternals_still {names : List Str} {l : List ℕ} (h : Facts mode [] s)
    (hlive : mode.strict → s.live cid = true) (hl : l ⊆ s.css) :
    Ends (tolerated mode) (fun r => Still s r.1) (askInternals cid names l s) := by
  induction l generalizing s with
  | nil => exact .pure (.refl s)
  | cons other rest ih =>
    have hother := (h.peers.css other (hl List.mem_cons_self)).live
    have hrest : rest ⊆ s.css := fun x hx => hl (List.mem_cons_of_mem _ hx)
    refine (touch_ends fun _ => hother).bind fun _ _ => ?_
    refine .ite (fun _ => ?_) fun _ => ih h hlive hrest
    refine (send_still (fun _ => hother) rfl).bind fun asked hasked => ?_
    refine (sendText_still fun hstrict => hasked.1.live ▸ hlive hstrict).bind fun r hr => ?_
    have hstill := hasked.1.trans hr
    refine .ite (fun _ => ?_) fun _ => .pure hstill
    refine (ih (hstill.toAside.facts h) (fun hstrict => hstill.live ▸ hlive hstrict) ?_).mono
      fun u hu => hstill.trans hu
    rwa [hstill.same]

/-- A connection that is still there is what it was. -/
theorem Loses.kind_eq {t : Scheduler} {x : ℕ} (h : Loses lost s t)
    (hnd : (s.kinds.map Kind.cid).Nodup) (hlive : t.live x = true) :
    (t.conn x).kind = (s.conn x).kind := by
  have hkind := conn_kind hnd (h.kinds.subset (conn_kind_mem hlive))
  rw [← hkind]
  simp only [CompileServer.kind, conn_cid]

theorem matchesName_of_kind {c d : CompileServer} (h : c.kind = d.kind) (nm : Str) :
    c.matchesName nm = d.matchesName nm := by
  simp only [CompileServer.kind, Kind.mk.injEq] at h
  obtain ⟨-, -, -, -, -, hname, hnode⟩ := h
  simp only [CompileServer.matchesName, hname, hnode]

theorem removeServer_calms {block : Bool} {nm : Str} (h : Facts mode [] s)
    (hlive : mode.strict → s.live cid = true)
    (hlost : ∀ other ∈ s.css, (s.conn other).matchesName nm = true → lost other) :
    Ends (tolerated mode) (Calms mode lost s) (removeServer cid block s nm) := by
  unfold removeServer
  have hblock : Still s (if block then { s with blockCss := s.blockCss ++ [nm] } else s) := by
    cases block
    · exact .refl s
    · exact .of_eq (.refl _) rfl le_rfl rfl
  have hconn : ∀ x, (if block then { s with blockCss := s.blockCss ++ [nm] } else s).conn x =
      s.conn x := by
    cases block <;> exact fun _ => rfl
  generalize (if block then { s with blockCss := s.blockCss ++ [nm] } else s) = t at hblock hconn
  have hfacts := hblock.toAside.facts h
  refine (touch_each fun _ x hx => (hfacts.peers.css x hx).live).bind fun _ _ => ?_
  cases hfind : t.css.find? fun other => (t.conn other).matchesName nm with
  | none => exact .pure (.aside hblock.toAside h)
  | some other =>
    have hmem : other ∈ t.css := List.mem_of_find?_eq_some hfind
    have hmatches := List.find?_some hfind
    rw [hconn] at hmatches
    refine (sendText_still fun hstrict => hblock.live ▸ hlive hstrict).bind fun r hr => ?_
    have hstill := hblock.trans hr
    have hrfacts := hstill.toAside.facts h
    refine .ite (fun _ => ?_) fun _ => .pure (.aside hstill.toAside h)
    have hother : other ∈ r.1.css := by rwa [hr.same]
    have hgoes := hlost other (hblock.same ▸ hmem) hmatches
    have hend := handleEnd_calms hrfacts (fun _ => (hrfacts.peers.css other hother).live) hgoes
    exact hend.mono fun u hu => .trans (.aside hstill.toAside h) hu

/-- No server has one of the names. -/
theorem removeServers_still {block : Bool} {l : List Str} (h : Facts mode [] s)
    (hnone : ∀ other ∈ s.css, ∀ nm ∈ l, (s.conn other).matchesName nm = false) :
    Ends (tolerated mode) (Still s) (l.foldlM (removeServer cid block) s) := by
  refine still_loop h fun t nm hnm ht hstill => ?_
  unfold removeServer
  have hblock : Still t (if block then { t with blockCss := t.blockCss ++ [nm] } else t) := by
    cases block
    · exact .refl t
    · exact .of_eq (.refl _) rfl le_rfl rfl
  have hconn : ∀ x, (if block then { t with blockCss := t.blockCss ++ [nm] } else t).conn x =
      t.conn x := by
    cases block <;> exact fun _ => rfl
  generalize (if block then { t with blockCss := t.blockCss ++ [nm] } else t) = u at hblock hconn
  have hfacts := hblock.toAside.facts ht
  refine (touch_each fun _ x hx => (hfacts.peers.css x hx).live).bind fun _ _ => ?_
  have hfind : (u.css.find? fun other => (u.conn other).matchesName nm) = none := by
    refine List.find?_eq_none.mpr fun x hx => ?_
    have hxcss : x ∈ s.css := hstill.same ▸ hblock.same ▸ hx
    have hkind := hstill.toLoses.kind_eq h.peers.cids (ht.peers.css x (hblock.same ▸ hx)).live
    rw [hconn, matchesName_of_kind hkind, hnone x hxcss nm hnm]
    exact Bool.false_ne_true
  rw [hfind]
  exact .pure hblock

theorem removeServers_calms {block : Bool} {l : List Str} (h : Facts mode [] s)
    (hlive : mode.strict → s.live cid = true)
    (hkeep : mode.strict → (cid ∉ s.monitors ∨
      ∀ other ∈ s.css, ∀ nm ∈ l, (s.conn other).matchesName nm = false) ∧ ¬ lost cid)
    (hlost : ∀ other ∈ s.css, ∀ nm ∈ l, (s.conn other).matchesName nm = true → lost other) :
    Ends (tolerated mode) (fun t => Calms mode lost s t ∧ (mode.strict → t.live cid = true))
      (l.foldlM (removeServer cid block) s) := by
  by_cases hnone : ∀ other ∈ s.css, ∀ nm ∈ l, (s.conn other).matchesName nm = false
  · refine (removeServers_still h hnone).mono fun t ht => ⟨.aside ht.toAside h, fun hstrict => ?_⟩
    exact ht.live ▸ hlive hstrict
  have hstays : ∀ t, Calms mode lost s t → mode.strict → t.live cid = true := by
    intro t ht hstrict
    obtain ⟨hmonitor, hkept⟩ := hkeep hstrict
    have hmonitor := hmonitor.resolve_right hnone
    exact ht.loses.live (hlive hstrict) hkept fun hm => absurd hm hmonitor
  refine (Ends.foldlM (fun rest t => Calms mode lost s t ∧ rest ⊆ l) ⟨.refl h, fun _ hx => hx⟩
    ?_).mono fun t ht => ⟨ht.1, hstays t ht.1⟩
  rintro nm rest t ⟨hcalms, hrest⟩
  have hturn : Ends (tolerated mode) (Calms mode lost t) (removeServer cid block t nm) := by
    refine removeServer_calms hcalms.facts (hstays t hcalms) fun other hother hmatches => ?_
    have hkind := hcalms.loses.kind_eq h.peers.cids (hcalms.facts.peers.css other hother).live
    rw [matchesName_of_kind hkind] at hmatches
    exact hlost other (hcalms.loses.css.subset hother) nm (hrest List.mem_cons_self) hmatches
  exact hturn.mono fun u hu => ⟨hcalms.trans hu, fun y hy => hrest (List.mem_cons_of_mem _ hy)⟩

/-- The servers that a line asks to close -/
def Removes (s : Scheduler) (text : Str) (x : ℕ) : Prop :=
  (command text = str "removecs" ∨ command text = str "blockcs") ∧ x ∈ s.css ∧
    ∃ nm ∈ (splitString text).tail, (s.conn x).matchesName nm = true

theorem handleCommand_handled {text : Str} (h : Facts mode [] s)
    (hlive : mode.strict → s.live cid = true)
    (hkeep : mode.strict → (cid ∉ s.monitors ∨ ∀ x, ¬ s.Removes text x) ∧ ¬ lost cid)
    (hlost : ∀ x, s.Removes text x → lost x) :
    Ends (tolerated mode) (Handled mode lost cid s)
      (s.handleCommand cid (command text) (splitString text).tail) := by
  have htext : Ends (tolerated mode) (Handled mode lost cid s) (s.sendText cid) :=
    (sendText_still hlive).mono fun r hr => .still hr h r.2 hlive
  unfold handleCommand
  refine .ite (fun _ => ?_) fun _ => ?_
  · exact (listServers_still h hlive fun _ hx => hx).mono fun r hr => .still hr h r.2 hlive
  refine .ite (fun _ => ?_) fun _ => ?_
  · exact (sendEach_still h hlive fun _ _ _ _ => .pure trivial).mono
      fun r hr => .still hr h r.2 hlive
  refine .ite (fun _ => ?_) fun _ => ?_
  · exact (sendEach_still h hlive fun t ht e _ => dumpJob_ends e.2 ht).mono
      fun r hr => .still hr h r.2 hlive
  refine .ite (fun hremove => ?_) fun _ => ?_
  · refine .ite (fun _ => htext) fun _ => ?_
    refine (removeServers_calms h hlive (fun hstrict => ?_)
      fun other hother nm hnm hmatches => hlost other ⟨hremove, hother, nm, hnm, hmatches⟩).bind
      fun t ht => .pure (.of_calms (ht.1.mono fun _ hx => .inl hx) fun hstrict _ => ht.2 hstrict)
    obtain ⟨hmonitor, hkept⟩ := hkeep hstrict
    refine ⟨hmonitor.imp_right fun hnone other hother nm hnm => ?_, hkept⟩
    rw [← Bool.not_eq_true]
    exact fun hmatches => hnone other ⟨hremove, hother, nm, hnm, hmatches⟩
  refine .ite (fun _ => ?_) fun _ => ?_
  · refine .ite (fun _ => htext) fun _ => ?_
    have hunblock : Still s { s with blockCss := s.blockCss.diff (splitString text).tail } :=
      .of_eq (.refl _) rfl le_rfl rfl
    exact .pure (.still hunblock h true hlive)
  refine .ite (fun _ => ?_) fun _ => htext
  exact (askInternals_still h hlive fun _ hx => hx).mono fun r hr => .still hr h r.2 hlive

theorem handleLine_handled {text : Str} (h : Facts mode [] s)
    (hlive : mode.strict → s.live cid = true)
    (hkeep : mode.strict → (cid ∉ s.monitors ∨ ∀ x, ¬ s.Removes text x) ∧ ¬ lost cid)
    (hlost : ∀ x, s.Removes text x → lost x) :
    Ends (tolerated mode) (Handled mode lost cid s) (s.handleLine cid text) := by
  unfold handleLine
  refine (touch_ends hlive).bind fun _ _ => ?_
  have hput := (Still.asked s).trans (.put (c := { s.conn cid with lastTalk := s.now }) cid
    h.peers.cids rfl rfl rfl)
  generalize s.asked.put { s.conn cid with lastTalk := s.now } = t at hput
  have hfacts := hput.toAside.facts h
  have htlive : mode.strict → t.live cid = true := fun hstrict => hput.live ▸ hlive hstrict
  have hcalms : Calms mode lost s t := .aside hput.toAside h
  refine .ite (fun _ => ?_) fun _ => ?_
  · exact (handleEnd_handled hfacts htlive).bind fun u hu => .pure (.after hcalms hu)
  · have hcommand : Ends (tolerated mode) (Handled mode lost cid t)
        (t.handleCommand cid (command text) (splitString text).tail) := by
      have hback : ∀ x, t.Removes text x → s.Removes text x := by
        rintro x ⟨hremove, hcss, nm, hnm, hmatches⟩
        have hkind := hput.toLoses.kind_eq h.peers.cids (hfacts.peers.css x hcss).live
        rw [matchesName_of_kind hkind] at hmatches
        exact ⟨hremove, hput.same ▸ hcss, nm, hnm, hmatches⟩
      refine handleCommand_handled hfacts htlive (fun hstrict => ?_) fun x hx => hlost x (hback x hx)
      obtain ⟨hmonitor, hkept⟩ := hkeep hstrict
      refine ⟨?_, hkept⟩
      rw [hput.watchers]
      exact hmonitor.imp_right fun hnone x hx => hnone x (hback x hx)
    refine hcommand.bind fun r hr => ?_
    refine .ite (fun hgoes => ?_) fun hgoes => ?_
    · have hrlive : mode.strict → r.1.live cid = true := fun hstrict => hr.stays hstrict hgoes
      have hrcalms : Calms mode lost t r.1 := by
        refine ⟨hr.toLeaves.mono fun x hx => ?_, hr.calm⟩
        simpa [Closing, hgoes] using hx
      refine (sendText_still hrlive).mono fun u hu => ?_
      exact .after (hcalms.trans hrcalms) (.still hu hr.facts u.2 hrlive)
    · rw [Bool.not_eq_true] at hgoes
      refine .pure (.after hcalms (.closed ⟨?_, hr.calm⟩))
      exact hgoes ▸ hr.toLeaves

end Scheduler

end Icecream.IceccScheduler
