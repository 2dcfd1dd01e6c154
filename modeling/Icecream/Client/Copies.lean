import Icecream.Client.BuildRuns

/-!
# A job that is built several times

Each copy is built by a child of the client, which waits for the children and compares what they have
made.
-/

namespace Icecream.Client.Build

open Icecream.Comm (Bytes Str str Msg UseCSMsg Environments)
open Icecream.Services (WaitStatus shellExitStatus)
open Icecream.Client.Remote (Relabelled Buildable exitDistccFailed)

section

variable {v : Invocation} {α : Type} {R : α → State → Prop} {E E' : Thrown → State → Prop} {s : State}
  {j : Job} {files : Str → Option Comm.Content} {p : Phase}

/-! ## Operations and scopes -/

theorem meets_tmpnam {suffix : Str} {f : Option Str → Build α}
    (hnone : (f none).Meets act (asks v) R E { s with unnamed := true })
    (hsome : ∀ path, suffix <:+ path → (f (some path)).Meets act (asks v) R E s) :
    (op (.tmpnam suffix) >>= f).Meets act (asks v) R E s := by
  refine .step trivial fun c r t hact => ?_
  rcases act_tmpnam hact with ⟨rfl, rfl⟩ | ⟨path, rfl, hsuffix, rfl⟩
  · exact hnone
  · exact hsome path hsuffix

theorem meets_fork {f : ℤ → Build α}
    (h : ∀ pid, pid ∉ s.children → (f pid).Meets act (asks v) R E (s.forked pid)) :
    (op .fork >>= f).Meets act (asks v) R E s := by
  refine .step trivial fun c pid t hact => ?_
  obtain ⟨hnew, -, rfl⟩ := act_fork hact
  exact h pid hnew

theorem meets_wait {f : Option (ℤ × WaitStatus) → Build α}
    (hchild : ∀ pid w, pid ∈ s.children → (f (some (pid, w))).Meets act (asks v) R E (s.reaped pid w))
    (hnone : (f none).Meets act (asks v) R E s) :
    (op .wait >>= f).Meets act (asks v) R E s := by
  refine .step trivial fun c r t hact => ?_
  rcases act_wait hact with ⟨pid, w, rfl, hpid, rfl⟩ | ⟨rfl, rfl⟩
  · exact hchild pid w hpid
  · exact hnone

theorem meets_fread {path : Str} {f : Option (List Bytes) → Build α}
    (h : ∀ reads, (f reads).Meets act (asks v) R E { s with reads := s.reads ++ [(path, reads)] }) :
    (op (.fread path) >>= f).Meets act (asks v) R E s := by
  refine .step trivial fun c reads t hact => ?_
  obtain rfl := act_fread hact
  exact h reads

theorem meets_waitCpp {f : WaitStatus → Build α}
    (h : ∀ w, (f w).Meets act (asks v) R E { s with remote := { s.remote with cpp := some w } }) :
    (op (.remote .waitCpp) >>= f).Meets act (asks v) R E s := by
  refine .step trivial fun c r t hact => ?_
  obtain ⟨k, u, hu, rfl⟩ := act_remote hact
  cases k <;> cases hu
  exact h r

theorem meets_handling {q : Build α} {handler : ClientError → Build α} (h : q.Meets act (asks v) R E' s)
    (herror : ∀ e t, E' (.error e) t → (handler e).Meets act (asks v) R E t)
    (hother : ∀ x t, (∀ e, x ≠ .error e) → E' x t → E x t) :
    (handling q handler).Meets act (asks v) R E s := by
  refine .rescue h fun x t hx => ?_
  cases x with
  | error e => exact herror e t hx
  | exits status => exact .raise (hother _ t (fun _ => nofun) hx)
  | executes argv => exact .raise (hother _ t (fun _ => nofun) hx)
  | killed => exact .raise (hother _ t (fun _ => nofun) hx)

def State.unlocked (s : State) : State :=
  { s with remote := { s.remote with lock := HostLock.dccUnlock s.remote.lock } }

theorem meets_leavingScope {q : Build α} {Q : α → State → Prop} (h : q.Meets act (asks v) Q E' s)
    (hresult : ∀ a t, Q a t → R a t.unlocked) (herror : ∀ e t, E' (.error e) t → E (.error e) t.unlocked)
    (hother : ∀ x t, (∀ e, x ≠ .error e) → E' x t → E x t) :
    (leavingScope q unlock).Meets act (asks v) R E s := by
  refine .andThen (meets_handling h (fun e t he => ?_) hother) (fun a t ha => ?_) fun _ _ h => h
  · exact meets_unlock (.raise (herror e t he))
  · exact meets_unlock (.pure (hresult a t ha))

/-! ## What is removed and compared -/

/-- Nothing but files has changed. -/
def Cleared (s t : State) : Prop := ∃ files reads,
  t = { s with remote := { s.remote with files := files }, reads := s.reads ++ reads }

theorem Cleared.refl (s : State) : Cleared s s := ⟨s.remote.files, [], by rw [List.append_nil]⟩

theorem Cleared.trans {s t u : State} (h : Cleared s t) (h' : Cleared t u) : Cleared s u := by
  obtain ⟨files, reads, rfl⟩ := h
  obtain ⟨files', reads', rfl⟩ := h'
  exact ⟨files', reads ++ reads', by rw [List.append_assoc]⟩

theorem Cleared.made (s : State) (files : Str → Option Comm.Content) :
    Cleared s { s with remote := { s.remote with files := files } } :=
  ⟨files, [], by rw [List.append_nil]⟩

theorem Cleared.unnamed {s t : State} (h : Cleared s t) : t.unnamed = s.unnamed := by
  obtain ⟨files, reads, rfl⟩ := h
  rfl

theorem Cleared.reads_mono {s t : State} (h : Cleared s t) {r : Str × Option (List Bytes)}
    (hr : r ∈ s.reads) : r ∈ t.reads := by
  obtain ⟨files, reads, rfl⟩ := h
  exact List.mem_append_left _ hr

theorem unlinkSome_meets (path : Option Str) :
    (unlinkSome path).Meets act (asks v) (fun _ => Cleared s) E s := by
  cases path with
  | none => exact .pure (.refl s)
  | some path => exact meets_unlink fun _ files => .pure (.made s files)

theorem removeOutput_meets (fission : Bool) (output : Str) :
    (removeOutput fission output).Meets act (asks v) (fun _ => Cleared s) E s := by
  unfold removeOutput
  refine meets_unlink fun _ files => .ite (fun _ => ?_) fun _ => .pure (.made s files)
  exact meets_unlink fun _ files' => .pure (.trans (.made s files) (.made _ files'))

theorem keepEvidence_meets (fission : Bool) {preproc : Option Str} (output : Str)
    (hnamed : preproc = none → s.unnamed = true) :
    (keepEvidence fission preproc output).Meets act (asks v) (fun _ => Cleared s) E s := by
  unfold keepEvidence
  refine meets_rename fun _ files => meets_named hnamed fun path _ => meets_rename fun _ files' => ?_
  have hcleared : Cleared s { s with remote := { s.remote with files := files' } } := .made s files'
  refine .ite (fun _ => meets_rename fun _ files'' => .pure ?_) fun _ => .pure hcleared
  exact .trans hcleared (.made _ files'')

theorem removeCopies_meets (fission : Bool) (copies : List Copy) :
    (removeCopies fission copies).Meets act (asks v) (fun _ => Cleared s) E s := by
  induction copies generalizing s with
  | nil => exact .pure (.refl s)
  | cons copy copies ih =>
    unfold removeCopies
    refine .andThen (removeOutput_meets fission _) (fun _ t ht => ?_) fun _ _ h => h
    exact .mono ih (fun _ _ h => ht.trans h) fun _ _ h => h

/-- A file has been read that has the checksum. -/
def HasSum (v : Invocation) (path sum : Str) (t : State) : Prop :=
  ∃ reads, (path, reads) ∈ t.reads ∧ Md5.md5ForFile v.stack reads = sum

theorem HasSum.mono {path sum : Str} {t u : State} (h : HasSum v path sum t) (hcleared : Cleared t u) :
    HasSum v path sum u := by
  obtain ⟨reads, hreads, hsum⟩ := h
  exact ⟨reads, hcleared.reads_mono hreads, hsum⟩

theorem meets_md5 {path : Str} {f : Str → Build α}
    (h : ∀ sum t, Cleared s t → HasSum v path sum t → (f sum).Meets act (asks v) R E t) :
    (md5ForFile v path >>= f).Meets act (asks v) R E s := by
  refine .bind (meets_fread fun reads => .pure (h _ _ ⟨s.remote.files, [(path, reads)], rfl⟩ ?_))
  exact ⟨reads, List.mem_concat_self, rfl⟩

/-- A copy may differ if its process has ended with 42. -/
def Matches (v : Invocation) (sum : Str) (t : State) (c : Copy × ℤ) : Prop :=
  c.2 = 42 ∨ c.2 = 0 ∧ HasSum v c.1.job.outputFile sum t

theorem compareCopies_meets (fission : Bool) {preproc : Option Str} (output firstMd5 : Str) (first : ℤ)
    (copies : List (Copy × ℤ)) (hnamed : preproc = none → s.unnamed = true) :
    (compareCopies v fission preproc output firstMd5 first copies).Meets act (asks v) (fun ret t =>
      Cleared s t ∧ (ret = 0 → first = 0 ∧ ∀ c ∈ copies, Matches v firstMd5 t c)) E s := by
  induction copies generalizing s with
  | nil => exact .pure ⟨.refl s, fun hret => ⟨hret, by simp⟩⟩
  | cons c copies ih =>
    obtain ⟨copy, code⟩ := c
    unfold compareCopies
    have hrest : ∀ {t : State}, Cleared s t → (first = 0 → Matches v firstMd5 t (copy, code)) →
        (compareCopies v fission preproc output firstMd5 first copies).Meets act (asks v) (fun ret u =>
          Cleared s u ∧ (ret = 0 → first = 0 ∧ ∀ c ∈ (copy, code) :: copies, Matches v firstMd5 u c)) E t := by
      intro t ht hcopy
      refine .mono (ih fun hnone => ht.unnamed.trans (hnamed hnone)) (fun ret u hu => ?_) fun _ _ h => h
      obtain ⟨hcleared, hsame⟩ := hu
      refine ⟨ht.trans hcleared, fun hret => ⟨(hsame hret).1, List.forall_mem_cons.mpr ⟨?_, (hsame hret).2⟩⟩⟩
      exact (hcopy (hsame hret).1).imp_right fun h => ⟨h.1, h.2.mono hcleared⟩
    have hdiffers : ∀ {t : State}, Cleared s t → Cleared s t ∧ ((-1 : ℤ) = 0 → first = 0 ∧
        ∀ c ∈ (copy, code) :: copies, Matches v firstMd5 t c) := fun ht => ⟨ht, by simp⟩
    refine .ite (fun _ => .ite (fun h42 => ?_) fun h42 => .ite (fun _ => ?_) fun hcode => ?_) fun hfirst => ?_
    · exact hrest (.refl s) fun _ => .inl h42
    · refine .andThen (removeOutput_meets fission output) (fun _ t ht => ?_) fun _ _ h => h
      exact .pure (hdiffers ht)
    · refine meets_md5 fun sum t ht hsum => .ite (fun _ => ?_) fun hsame => ?_
      · refine .andThen (keepEvidence_meets fission output fun hnone => ht.unnamed.trans (hnamed hnone)) ?_
          fun _ _ h => h
        exact fun _ u hu => .pure (hdiffers (ht.trans hu))
      · refine .andThen (removeOutput_meets fission _) (fun _ u hu => ?_) fun _ _ h => h
        refine hrest (ht.trans hu) fun _ => .inr ⟨not_not.mp hcode, ?_⟩
        exact not_not.mp hsame ▸ hsum.mono hu
    · refine .andThen (removeOutput_meets fission _) (fun _ u hu => ?_) fun _ _ h => h
      exact hrest hu fun hzero => absurd hzero hfirst

/-- What the verdict on the copies rests on -/
def Judged (v : Invocation) (copies : List Copy) (exitCodes : Option (ℕ → ℤ)) (output : Str)
    (t : State) : Prop :=
  ∃ codes sum, exitCodes = some codes ∧ codes 0 = 0 ∧ HasSum v output sum t ∧
    ∀ c ∈ (copies.zipIdx.map fun c => (c.1, codes c.2)).drop 1, Matches v sum t c

theorem judgeCopies_meets (fission : Bool) {preproc : Option Str} (copies : List Copy)
    (exitCodes : Option (ℕ → ℤ)) (hnamed : preproc = none → s.unnamed = true) :
    (judgeCopies v fission preproc copies exitCodes).Meets act (asks v) (fun ret t => Cleared s t ∧
      (ret = 0 → Judged v copies exitCodes ((copies.head?.map fun copy => copy.job.outputFile).getD []) t))
      (fun x t => (∃ e, x = .error e) ∧ Cleared s t) s := by
  unfold judgeCopies
  cases exitCodes with
  | some codes =>
    refine meets_md5 fun sum t ht hsum => .andThen (compareCopies_meets fission _ sum (codes 0) _
      fun hnone => ht.unnamed.trans (hnamed hnone)) ?_ fun _ _ h => h
    rintro ret u ⟨hu, hmatches⟩
    refine .andThen (unlinkSome_meets preproc) (fun _ w hw => .pure ?_) fun _ _ h => h
    refine ⟨(ht.trans hu).trans hw, fun hret => ⟨codes, sum, rfl, (hmatches hret).1, ?_, fun c hc => ?_⟩⟩
    · exact (hsum.mono hu).mono hw
    · exact ((hmatches hret).2 c hc).imp_right fun h => ⟨h.1, h.2.mono hw⟩
  | none =>
    refine .andThen (removeCopies_meets fission copies) (fun _ t ht => ?_) fun _ _ h => h
    refine .andThen (unlinkSome_meets preproc) (fun _ u hu => ?_) fun _ _ h => h
    exact .raise ⟨⟨_, rfl⟩, ht.trans hu⟩

/-! ## The children -/

theorem Ends.copy {original : Job} {output : Str} {x : Thrown} {t : State} (hjob : Relabelled j original)
    (h : Ends v { original with outputFile := output } files x t) (hx : ∀ e, x ≠ .error e) :
    Ends v j files x t := by
  cases x with
  | error e => exact absurd rfl (hx e)
  | executes argv =>
    obtain ⟨output', j', hsame, hargv⟩ := h
    obtain ⟨id, environment, flags, rfl⟩ := hjob
    exact ⟨output', j', relabelled_trans ⟨id, environment, flags, rfl⟩ hsame, hargv⟩
  | exits status => exact h
  | killed => exact h

theorem buildCopy_meets (junk : Usage) (envs : Versions.Ripped) (preproc : Option Str) (first : Bool)
    (copy : Copy) {original : Job} {output : Str} (h : Talks j files .requested s)
    (hjob : Relabelled j original) (hcopy : copy.job = { original with outputFile := output })
    (hbuildable : Buildable copy.job) (hheard : .useCS copy.usecs ∈ s.heard) :
    (buildCopy v junk envs preproc first copy).Meets act (asks v) (fun _ _ => False) (Ends v j files) s := by
  unfold buildCopy
  refine meets_setJob ?_
  have hset : Talks copy.job files .requested { s with remote := { s.remote with job := copy.job } } :=
    h.sets (relabelled_refl copy.job)
  refine .andThen (meets_handling (buildOnServer_meets junk envs hset hbuildable hheard preproc first)
    (fun e t _ => .raise trivial) fun x t hx hends => ?_) ?_ fun _ _ h => h
  · rw [hcopy] at hends
    exact hends.copy hjob hx
  · exact fun ret t hcame => .raise fun hret => ⟨_, _, hcame.done hret⟩

/-- `pids` are the processes that build the copies; the number is negative if there is none. -/
structure Mapped (pids : ℕ → ℤ) (n : ℕ) (jobmap : ℤ → ℕ) (children : List ℤ) : Prop where
  child : ∀ pid ∈ children, 0 < pid ∧ ∃ k < n, pids k = pid
  index : ∀ k < n, 0 < pids k → jobmap (pids k) = k

theorem Mapped.started {pids : ℕ → ℤ} {n : ℕ} {jobmap : ℤ → ℕ} {children : List ℤ} {pid : ℤ}
    (h : Mapped pids n jobmap children) (hnew : ∀ k < n, 0 < pids k → pids k ≠ pid) :
    Mapped (Function.update pids n pid) (n + 1) (Function.update jobmap pid n)
      (if 0 < pid then children ++ [pid] else children) where
  child c hc := by
    have hold : c ∈ children → 0 < c ∧ ∃ k < n + 1, Function.update pids n pid k = c := by
      intro hchild
      obtain ⟨hpos, k, hk, rfl⟩ := h.child c hchild
      exact ⟨hpos, k, by omega, Function.update_of_ne (by omega) _ _⟩
    split_ifs at hc with hpos
    · rcases List.mem_append.mp hc with hchild | hlast
      · exact hold hchild
      · obtain rfl := List.mem_singleton.mp hlast
        exact ⟨hpos, n, by omega, Function.update_self n c pids⟩
    · exact hold hc
  index k hk hpos := by
    rcases Nat.lt_succ_iff_lt_or_eq.mp hk with hlt | rfl
    · have hold : Function.update pids n pid k = pids k := Function.update_of_ne (Nat.ne_of_lt hlt) _ _
      rw [hold] at hpos ⊢
      rw [Function.update_of_ne (hnew k hlt hpos)]
      exact h.index k hlt hpos
    · rw [Function.update_self, Function.update_self]

theorem Mapped.reaped {pids : ℕ → ℤ} {n : ℕ} {jobmap : ℤ → ℕ} {children : List ℤ}
    (h : Mapped pids n jobmap children) (pid : ℤ) : Mapped pids n jobmap (children.erase pid) :=
  ⟨fun c hc => h.child c (List.mem_of_mem_erase hc), h.index⟩

/-- What the code of a copy says of its process -/
def Reported (pids : ℕ → ℤ) (codes : ℕ → ℤ) (waited : List (ℤ × WaitStatus)) (i : ℕ) : Prop :=
  (∃ code, (pids i, .exited code) ∈ waited ∧ codes i = code.toNat) ∨
    codes i = 42 ∧ ∀ w, (pids i, w) ∉ waited

theorem Reported.ended {pids codes : ℕ → ℤ} {n : ℕ} {jobmap : ℤ → ℕ} {children : List ℤ}
    {waited : List (ℤ × WaitStatus)} (hmapped : Mapped pids n jobmap children) {pid : ℤ} {code : UInt8}
    (hpid : pid ∈ children) {i : ℕ} (hi : i < n) (h : Reported pids codes waited i) :
    Reported pids (Function.update codes (jobmap pid) code.toNat) (waited ++ [(pid, .exited code)]) i := by
  obtain ⟨hpos, k, hk, rfl⟩ := hmapped.child pid hpid
  rw [hmapped.index k hk hpos]
  by_cases hik : i = k
  · rw [hik]
    exact .inl ⟨code, List.mem_concat_self, Function.update_self k _ codes⟩
  · rcases h with ⟨old, hold, hcode⟩ | ⟨hcode, hnot⟩
    · exact .inl ⟨old, List.mem_append_left _ hold, (Function.update_of_ne hik _ _).trans hcode⟩
    · refine .inr ⟨(Function.update_of_ne hik _ _).trans hcode, fun w hw => ?_⟩
      rcases List.mem_append.mp hw with hold | hlast
      · exact hnot w hold
      · have hsame : pids i = pids k := congrArg Prod.fst (List.mem_singleton.mp hlast)
        have hindex := hmapped.index i hi (hsame ▸ hpos)
        rw [hsame, hmapped.index k hk hpos] at hindex
        exact hik hindex.symm

theorem waitCopies_meets {pids : ℕ → ℤ} {n : ℕ} {jobmap : ℤ → ℕ} (turns : ℕ) {exitCodes : ℕ → ℤ}
    (hmapped : Mapped pids n jobmap s.children)
    (hreported : ∀ i < n, Reported pids exitCodes s.waited i) :
    (waitCopies jobmap turns exitCodes).Meets act (asks v) (fun r t =>
      (∃ children waited, t = { s with children := children, waited := waited }) ∧
        ∀ codes, r = some codes → ∀ i < n, Reported pids codes t.waited i) E s := by
  induction turns generalizing s exitCodes with
  | zero =>
    refine .pure ⟨⟨s.children, s.waited, rfl⟩, ?_⟩
    rintro codes ⟨⟩
    exact hreported
  | succ turns ih =>
    unfold waitCopies
    refine meets_wait (fun pid w hpid => ?_) (ih hmapped hreported)
    cases w with
    | exited code =>
      have hrest := ih (s := s.reaped pid (.exited code)) (hmapped.reaped pid) fun i hi =>
        (hreported i hi).ended hmapped hpid hi
      refine .mono hrest ?_ fun _ _ h => h
      rintro r _ ⟨⟨children, waited, rfl⟩, hr⟩
      exact ⟨⟨children, waited, rfl⟩, hr⟩
    | signaled signal => exact .pure ⟨⟨_, _, rfl⟩, by simp⟩

/-- The copies that have been started, while none of their processes has been waited for -/
structure Started (j original : Job) (files : Str → Option Comm.Content) (copies : List Copy)
    (jobmap : ℤ → ℕ) (t : State) : Prop where
  talks : Talks j files .requested t
  waited : t.waited = []
  mapped : ∃ pids, Mapped pids copies.length jobmap t.children ∧
    ∀ k < copies.length, 0 < pids k → pids k ∈ t.children
  first : ∀ copy ∈ copies.head?, copy.job = original

theorem Started.forked {original : Job} {copies : List Copy} {jobmap : ℤ → ℕ}
    (h : Started j original files copies jobmap s) (copy : Copy) {pid : ℤ} (hpid : pid ∉ s.children)
    (hzero : pid ≠ 0) (hfirst : copies = [] → copy.job = original) :
    Started j original files (copies ++ [copy]) (Function.update jobmap pid copies.length)
      (s.forked pid) := by
  obtain ⟨pids, hmapped, halive⟩ := h.mapped
  have hnew : ∀ k < copies.length, 0 < pids k → pids k ≠ pid := fun k hk hpos heq =>
    hpid (heq ▸ halive k hk hpos)
  have hchildren : (s.forked pid).children = if 0 < pid then s.children ++ [pid] else s.children := by
    rw [State.forked, if_neg hzero]
    split_ifs <;> rfl
  have hrest : s.forked pid = { s with children := (s.forked pid).children } := by
    rw [State.forked, if_neg hzero]
    split_ifs <;> rfl
  constructor
  case talks =>
    rw [hrest]
    exact h.talks.congr rfl rfl
  case waited =>
    rw [hrest]
    exact h.waited
  case mapped =>
    refine ⟨Function.update pids copies.length pid, ?_, fun k hk hpos => ?_⟩
    · rw [hchildren, List.length_append]
      exact hmapped.started hnew
    · rw [hchildren]
      rw [List.length_append] at hk
      rcases Nat.lt_succ_iff_lt_or_eq.mp hk with hlt | rfl
      · have hold : Function.update pids copies.length pid k = pids k :=
          Function.update_of_ne (Nat.ne_of_lt hlt) _ _
        rw [hold] at hpos ⊢
        have hchild := halive k hlt hpos
        split_ifs
        · exact List.mem_append_left _ hchild
        · exact hchild
      · rw [Function.update_self] at hpos ⊢
        rw [if_pos hpos]
        exact List.mem_concat_self
  case first =>
    intro c hc
    cases copies with
    | nil =>
      obtain rfl := Option.some.inj hc
      exact hfirst rfl
    | cons c' rest => exact h.first c hc

theorem copyJob_meets (original : Job) (i : ℕ) :
    (copyJob original i).Meets act (asks v) (fun job t => (t = s ∨ t = { s with unnamed := true }) ∧
      (∃ output, job = { original with outputFile := output } ∧
        (original.outputFile ≠ [] → output ≠ [])) ∧ (i = 0 → job = original)) E s := by
  unfold copyJob
  refine .ite (fun hi => .pure ⟨.inl rfl, ⟨original.outputFile, rfl, id⟩, fun _ => rfl⟩) fun hi => ?_
  refine meets_tmpnam ?_ fun path hpath => ?_
  · exact meets_named (fun _ => rfl) (fun _ h => nomatch h)
  · refine meets_named (by simp) fun _ h => ?_
    obtain rfl := Option.some.inj h
    refine .pure ⟨.inl rfl, ⟨path, rfl, fun _ hnil => ?_⟩, fun hzero => absurd hzero hi⟩
    rw [hnil] at hpath
    exact absurd (List.suffix_nil.mp hpath) (by decide)

theorem startCopies_meets (junk : Usage) (envs : Versions.Ripped) (preproc : Option Str) {original : Job}
    (hjob : Relabelled j original) (hj : Buildable j) (n i : ℕ) {copies : List Copy} {jobmap : ℤ → ℕ}
    (hi : i = copies.length) (h : Started j original files copies jobmap s) :
    (startCopies v junk envs preproc original n i copies jobmap).Meets act (asks v) (fun r t =>
      r.1.length = copies.length + n ∧ Started j original files r.1 r.2 t ∧
        (s.unnamed = true → t.unnamed = true) ∧ t.reads = s.reads) (Ends v j files) s := by
  induction n generalizing s i copies jobmap with
  | zero => exact .pure ⟨rfl, h, id, rfl⟩
  | succ n ih =>
    unfold startCopies
    refine .andThen (copyJob_meets original i) ?_ fun _ _ h => h
    rintro job t ⟨ht, ⟨output, houtput, hnil⟩, hfirst⟩
    have hstart : Started j original files copies jobmap t ∧ (s.unnamed = true → t.unnamed = true) ∧
        t.reads = s.reads := by
      rcases ht with rfl | rfl
      · exact ⟨h, id, rfl⟩
      · exact ⟨⟨h.talks.congr rfl rfl, h.waited, h.mapped, h.first⟩, fun _ => rfl, rfl⟩
    obtain ⟨hstart, hunnamed, hreads⟩ := hstart
    refine .andThen (getServer_meets hstart.talks) ?_ fun _ _ h => h
    rintro usecs _ rfl
    have hheard : Started j original files copies jobmap { t with heard := t.heard ++ [Msg.useCS usecs] } :=
      ⟨hstart.talks.hears _, hstart.waited, hstart.mapped, hstart.first⟩
    refine meets_fork fun pid hpid => ?_
    refine .ite (fun hzero => ?_) fun hzero => ?_
    · subst hzero
      have hbuildable : Buildable job := by
        obtain ⟨id, environment, flags, rfl⟩ := hjob
        exact houtput ▸ ⟨hj.compiler, hnil hj.output⟩
      exact .andThen (buildCopy_meets junk envs preproc _ ⟨job, usecs⟩ (hheard.talks.congr rfl rfl) hjob
        houtput hbuildable List.mem_concat_self) (fun _ _ h => h.elim) fun _ _ h => h
    · have hnext := hheard.forked ⟨job, usecs⟩ hpid hzero fun hempty =>
        hfirst (hi.trans (congrArg List.length hempty))
      rw [← hi] at hnext
      refine .mono (ih (i + 1) (by rw [hi, List.length_append]; rfl) hnext) ?_ fun _ _ h => h
      rintro r w ⟨hlength, hw, hunnamed', hreads'⟩
      have hforked : ({ t with heard := t.heard ++ [Msg.useCS usecs] }.forked pid).unnamed = t.unnamed ∧
          ({ t with heard := t.heard ++ [Msg.useCS usecs] }.forked pid).reads = t.reads := by
        rw [State.forked, if_neg hzero]
        split_ifs <;> exact ⟨rfl, rfl⟩
      refine ⟨?_, hw, fun hs => hunnamed' (hforked.1.trans (hunnamed hs)), hreads'.trans (hforked.2.trans hreads)⟩
      rw [hlength, List.length_append, List.length_singleton]
      omega

/-! ## The verdict -/

/-- The first copy has been built without an error. What another one has made has the same checksum, unless
its process has ended with 42 or nothing is known of it. -/
def Agreed (v : Invocation) (output : Str) (t : State) : Prop :=
  ∃ (copies : List Copy) (pids : ℕ → ℤ) (sum : Str), copies.length = torepeat ∧
    (pids 0, .exited 0) ∈ t.waited ∧ HasSum v output sum t ∧
    ∀ i copy, copies[i]? = some copy → i ≠ 0 →
      (pids i, .exited 0) ∈ t.waited ∧ HasSum v copy.job.outputFile sum t ∨
        (pids i, .exited 42) ∈ t.waited ∨ ∀ w, (pids i, w) ∉ t.waited

theorem Reported.code {pids codes : ℕ → ℤ} {waited : List (ℤ × WaitStatus)} {i : ℕ} {n : UInt8}
    (h : Reported pids codes waited i) (hcode : codes i = n.toNat) :
    (pids i, .exited n) ∈ waited ∨ n = 42 ∧ ∀ w, (pids i, w) ∉ waited := by
  rcases h with ⟨code, hwaited, hsame⟩ | ⟨h42, hnot⟩
  · have heq : code = n := UInt8.toNat_inj.mp (by omega)
    exact .inl (heq ▸ hwaited)
  · have heq : n.toNat = (42 : UInt8).toNat := Int.ofNat_inj.mp (hcode.symm.trans h42)
    exact .inr ⟨UInt8.toNat_inj.mp heq, hnot⟩

theorem Judged.agreed {copies : List Copy} {codes : ℕ → ℤ} {pids : ℕ → ℤ} {output : Str} {t : State}
    (h : Judged v copies (some codes) output t) (hlength : copies.length = torepeat)
    (hreported : ∀ i < copies.length, Reported pids codes t.waited i) : Agreed v output t := by
  obtain ⟨_, sum, ⟨⟩, hfirst, hsum, hmatches⟩ := h
  have hended := (hreported 0 (by rw [hlength]; decide)).code (n := 0) hfirst
  refine ⟨copies, pids, sum, hlength, hended.resolve_right fun h => absurd h.1 (by decide), hsum, ?_⟩
  intro i copy hcopy hi
  have hlt : i < copies.length := (List.getElem?_eq_some_iff.mp hcopy).1
  have hmem : (copy, codes i) ∈ (copies.zipIdx.map fun c => (c.1, codes c.2)).drop 1 := by
    refine List.mem_of_getElem? (i := i - 1) ?_
    rw [List.getElem?_drop, show 1 + (i - 1) = i by omega, List.getElem?_map, List.getElem?_zipIdx, hcopy]
    simp
  rcases hmatches _ hmem with h42 | ⟨hzero, hcopied⟩
  · exact .inr (((hreported i hlt).code (n := 42) h42).imp_right And.right)
  · refine .inl ⟨?_, hcopied⟩
    exact ((hreported i hlt).code (n := 0) hzero).resolve_right fun h => absurd h.1 (by decide)

/-! ## The whole -/

/-- In a scope that unlocks the host at its end -/
def Within (v : Invocation) (j : Job) (files : Str → Option Comm.Content) : Thrown → State → Prop
  | .error _, t => Relabelled j t.remote.job
  | x, t => Ends v j files x t

theorem Ends.within {x : Thrown} {t : State} (h : Ends v j files x t) : Within v j files x t := by
  cases x with
  | error e => exact h.2
  | _ => exact h

theorem Cleared.speaks {t : State} (h : Speaks j p s.unlocked) (hcleared : Cleared s t) :
    Speaks j p t.unlocked := by
  obtain ⟨files, reads, rfl⟩ := hcleared
  exact ⟨h.lock, h.job, h.told, h.daemon⟩

theorem preprocessed_meets (preproc : Option Str) (h : Talks j files p s) (lock : HostLock.Process) :
    (preprocessed preproc).Meets act (asks v) (fun r t =>
      (∀ status, r = some status → status ≠ 0 ∧ Speaks j p t.unlocked) ∧
        (r = none → ∃ lock cpp, lock.lockFd = -1 ∧
          t = { s with remote := { s.remote with lock := lock, cpp := cpp } })) (Within v j files)
      { s with remote := { s.remote with lock := lock } } := by
  have hspeaks : ∀ cpp, Speaks j p
      ({ s with remote := { s.remote with lock := lock, cpp := cpp } } : State).unlocked := fun cpp =>
    ⟨rfl, h.job, h.told, h.daemon⟩
  unfold preprocessed
  refine meets_job (meets_call fun ok => .ite (fun _ => ?_) fun _ => ?_)
  · refine meets_waitCpp fun w => .ite (fun hfailed => ?_) fun _ => ?_
    · refine .andThen (unlinkSome_meets preproc) (fun _ t ht => .pure ?_) fun _ _ h => h
      refine ⟨?_, by simp⟩
      rintro _ ⟨⟩
      exact ⟨Int.ofNat_ne_zero.mpr hfailed, ht.speaks (hspeaks (some w))⟩
    · exact meets_unlock (.pure ⟨by simp, fun _ => ⟨_, _, rfl, rfl⟩⟩)
  · refine .andThen (unlinkSome_meets preproc) (fun _ t ht => .raise ?_) fun _ _ h => h
    exact (ht.speaks (hspeaks s.remote.cpp)).job

theorem buildCopies_meets (junk : Usage) (envs : Versions.Ripped) {preproc : Option Str}
    (h : Talks j files p s) (hp : p = .fresh ∨ p = .asked) (hsame : s.remote.job = j) (hj : Buildable j)
    (haskable : Askable v j) (hchildren : s.children = []) (hwaited : s.waited = [])
    (hnamed : preproc = none → s.unnamed = true) (lock : HostLock.Process) :
    (buildCopies v junk envs preproc).Meets act (asks v)
      (fun ret t => Came j (Agreed v j.outputFile) ret t.unlocked) (Within v j files)
      { s with remote := { s.remote with lock := lock } } := by
  unfold buildCopies
  refine meets_job (.andThen (preprocessed_meets preproc h lock) ?_ fun _ _ h => h)
  rintro (_ | status) t ⟨hsome, hnone⟩
  · obtain ⟨lock', cpp, hfree, rfl⟩ := hnone rfl
    have ht : Talks j files p { s with remote := { s.remote with lock := lock', cpp := cpp } } :=
      ⟨⟨hfree, h.job, h.told, h.daemon⟩, h.sent, h.received, h.source, h.files⟩
    refine meets_job (meets_rand fun n => meets_setJob (meets_job ?_))
    have hseed : Relabelled j (Remote.appendFlag s.remote.job (randSeed n) .argRemote) :=
      hsame ▸ ⟨_, _, _, rfl⟩
    have haskable' : Askable v (Remote.appendFlag s.remote.job (randSeed n) .argRemote) := by
      rw [hsame]
      refine ⟨fun f hf => ?_, haskable.niceness⟩
      rcases List.mem_append.mp hf with hold | hnew
      · exact haskable.flags f hold
      · rw [List.mem_singleton.mp hnew]
        exact List.append_ne_nil_of_left_ne_nil (by decide) _
    refine .andThen (askForServer_meets (ht.sets hseed) haskable' hp envs (absFilename_total v _) _ _ _ _) ?_
      fun _ _ h => h.within
    rintro _ u ⟨hu, told, rfl⟩
    have hstart : Started j (Remote.appendFlag s.remote.job (randSeed n) .argRemote) files [] (fun _ => 0) _ :=
      ⟨hu, hwaited, ⟨fun _ => 0, ⟨by simp [hchildren], by simp⟩, by simp⟩, by simp⟩
    refine .andThen (startCopies_meets junk envs preproc hseed hj torepeat 0 rfl hstart) ?_
      fun _ _ h => h.within
    rintro ⟨copies, jobmap⟩ w ⟨hlength, hw, hunnamed, -⟩
    obtain ⟨pids, hmapped, -⟩ := hw.mapped
    have hempty : ∀ i < copies.length, Reported pids (fun _ => 42) w.waited i := fun i _ =>
      .inr ⟨rfl, by rw [hw.waited]; simp⟩
    refine .andThen (waitCopies_meets torepeat hmapped hempty) ?_ fun _ _ h => h
    rintro codes _ ⟨⟨children, waited, rfl⟩, hreported⟩
    refine .mono (judgeCopies_meets _ copies codes fun hnone => hunnamed (hnamed hnone)) ?_ ?_
    · rintro ret x ⟨⟨files', reads, rfl⟩, hjudged⟩
      refine ⟨.inl rfl, hw.talks.job, ⟨_, hw.talks.told, fun _ => rfl⟩, hw.talks.daemon, fun hret => ?_⟩
      have houtput : (copies.head?.map fun copy => copy.job.outputFile).getD [] = j.outputFile := by
        cases copies with
        | nil => exact absurd hlength (by simp [torepeat])
        | cons copy rest =>
          show copy.job.outputFile = _
          rw [hw.first copy rfl, ← hsame]
          rfl
      obtain ⟨codes', hcodes⟩ : ∃ codes', codes = some codes' := by
        obtain ⟨codes', _, hcodes, -⟩ := hjudged hret
        exact ⟨codes', hcodes⟩
      subst hcodes
      have hagreed := (hjudged hret).agreed hlength (hreported codes' rfl)
      rw [houtput] at hagreed
      exact hagreed
    · rintro _ x ⟨⟨e, rfl⟩, files', reads, rfl⟩
      exact hw.talks.job
  · obtain ⟨hstatus, ht⟩ := hsome status rfl
    exact .pure ⟨.inl rfl, ht.job, ⟨p, ht.told, fun hzero => absurd hzero hstatus⟩, ht.daemon,
      fun hzero => absurd hzero hstatus⟩

theorem buildRepeatedly_meets (junk : Usage) (envs : Versions.Ripped) (h : Talks j files p s)
    (hp : p = .fresh ∨ p = .asked) (hsame : s.remote.job = j) (hj : Buildable j) (haskable : Askable v j)
    (hchildren : s.children = []) (hwaited : s.waited = []) :
    (buildRepeatedly v junk envs).Meets act (asks v) (Came j (Agreed v j.outputFile)) (Ends v j files) s := by
  have hlocked : ∀ preproc unnamed, (preproc = none → unnamed = true) →
      (do if ← op (.remote .lockHost) then leavingScope (buildCopies v junk envs preproc) unlock
          else return (exitDistccFailed : ℤ) : Build ℤ).Meets act (asks v)
        (Came j (Agreed v j.outputFile)) (Ends v j files) { s with unnamed := unnamed } := by
    intro preproc unnamed hnamed
    have ht : Talks j files p { s with unnamed := unnamed } := h.congr rfl rfl
    refine meets_lock ht.lock fun locked lock => .ite (fun _ => ?_) fun _ => ?_
    · refine meets_leavingScope (buildCopies_meets junk envs ht hp hsame hj haskable hchildren hwaited hnamed
        lock) (fun _ _ hcame => hcame) (fun e t hjob => ⟨rfl, hjob⟩) fun x t hx hends => ?_
      cases x with
      | error e => exact absurd rfl (hx e)
      | _ => exact hends
    · exact .pure ⟨.inr rfl, ht.job, ⟨p, ht.told, fun hzero => absurd hzero (by decide)⟩, ht.daemon,
        fun hzero => absurd hzero (by decide)⟩
  unfold buildRepeatedly
  refine meets_tmpnam (hlocked none true fun _ => rfl) fun path _ => ?_
  exact hlocked (some path) s.unnamed (by simp)

end

end Icecream.Client.Build
