/-
  CovProcess.File.Descriptors — which file a request acts on (see `CovProcess.File.Model`).
  A request holds the descriptor number of its object; `close_file` closes the number with
  requests on it still in the pool's queue, and a later `open` may get it. (The destructor
  of a process joins its reads before it closes what they read from.)

  Proved: `requests_own_iff`, for any order of the calls and of the pool, with any reuse of
  numbers: no request can act on a file that is not its object's exactly when no file is
  opened at a number that a waiting request of another holds; and `wrong_file`, a read that
  gets the bytes of a file opened after its own was closed.
-/

import CovProcess.File.Model

namespace CovProcess.File

open FdTable State

/-! ## What is claimed -/

/-- Not executed yet. -/
def ReqPhase.pending : ReqPhase → Bool
  | .queued => true
  | .taken => true
  | .executed .. => false
  | .done .. => false

/-- A file is not opened at a number that a request has yet to be executed on, if that is
    for another file and the descriptor is open for it. -/
def FreshFd (s : State) : Event → Prop
  | .fstream file mode fd => ∀ m r q, parseMode mode = some m → s.reqs r = some q → q.phase.pending = true →
      q.fd = fd → m.allows q.kind = true → q.file = file
  | _ => True

def Event.opens : Event → Bool
  | .fstream .. => true
  | _ => false

/-- Whatever follows, short of an `fstream`, every request acts on its own file. -/
def Safe (s : State) : Prop :=
  ∀ es t, (∀ e ∈ es, e.opens = false) → run s es = some t → ∀ a ∈ t.acted, a.on = a.own

/-! ## The invariants -/

structure Base (s : State) : Prop where
  owned : Owned s.objs fun x => (s.fds.file x).map OpenDesc.file
  size : ∀ r q, s.reqs r = some q → q.kind ≠ .read 0

/-- The descriptor of a pending request, if it is open, is so on the request's file. -/
structure Own (s : State) : Prop where
  acted : ∀ a ∈ s.acted, a.on = a.own
  reqs : ∀ r q d, s.reqs r = some q → q.phase.pending = true → s.fds.file q.fd = some d → d.mode.allows q.kind = true →
    d.file = q.file

/-- A step that opens and closes nothing and submits no request. -/
structure Advances (s s' : State) : Prop where
  fds : s'.fds = s.fds
  bindings : ∀ j, (s'.objs j).map FileObj.binding = (s.objs j).map FileObj.binding
  reqs : ∀ r q', s'.reqs r = some q' →
    ∃ q, s.reqs r = some q ∧ ∃ p, q' = { q with phase := p } ∧ (p.pending = true → q.phase.pending = true)

section

variable {s s' : State}

theorem Advances.refl (s : State) : Advances s s :=
  ⟨rfl, fun _ => rfl, fun _ q h => ⟨q, h, q.phase, rfl, id⟩⟩

theorem Advances.trans {s'' : State} (h : Advances s s') (h' : Advances s' s'') : Advances s s'' where
  fds := h'.fds.trans h.fds
  bindings j := (h'.bindings j).trans (h.bindings j)
  reqs r q'' hq'' := by
    obtain ⟨q', hq', p', rfl, hp'⟩ := h'.reqs r q'' hq''
    obtain ⟨q, hq, p, rfl, hp⟩ := h.reqs r q' hq'
    exact ⟨q, hq, p', rfl, fun h => hp (hp' h)⟩

theorem Advances.obj (h : Advances s s') {i : Nat} {f' : FileObj} (hf : s'.objs i = some f') :
    ∃ f, s.objs i = some f ∧ f'.closed = f.closed ∧ f'.fd = f.fd ∧ f'.file = f.file := by
  have hb := h.bindings i
  rw [hf, Option.map_some] at hb
  obtain ⟨f, hf', heq⟩ := Option.map_eq_some_iff.mp hb.symm
  have heq' : f.closed = f'.closed ∧ f.fd = f'.fd ∧ f.file = f'.file := by simpa [FileObj.binding] using heq
  exact ⟨f, hf', heq'.1.symm, heq'.2.1.symm, heq'.2.2.symm⟩

theorem Base.advance (h : Base s) (ha : Advances s s') : Base s' := by
  refine ⟨⟨?_, ?_⟩, ?_⟩
  · intro i f' hf' hc
    obtain ⟨f, hf, hclosed, hfd, hfile⟩ := ha.obj hf'
    rw [ha.fds, hfd, hfile]
    exact h.owned.refers i f hf (hclosed ▸ hc)
  · intro i j f' g' hf' hg' hcf hcg heq
    obtain ⟨f, hf, hclosed, hfd, -⟩ := ha.obj hf'
    obtain ⟨g, hg, hclosed', hfd', -⟩ := ha.obj hg'
    exact h.owned.distinct i j f g hf hg (hclosed ▸ hcf) (hclosed' ▸ hcg) (hfd.symm.trans (heq.trans hfd'))
  · intro r q' hq'
    obtain ⟨q, hq, p, rfl, -⟩ := ha.reqs r q' hq'
    exact h.size r q hq

theorem Own.advance (h : Own s) (ha : Advances s s') (hacted : ∀ a ∈ s'.acted, a.on = a.own) : Own s' where
  acted := hacted
  reqs r q' d hq' hp hd hallows := by
    obtain ⟨q, hq, p, rfl, hpend⟩ := ha.reqs r q' hq'
    rw [ha.fds] at hd
    exact h.reqs r q d hq (hpend hp) hd hallows

/-! ## The steps -/

theorem pending_complete {p : ReqPhase} (h : p.complete.pending = true) : p.pending = true := by
  cases p with
  | executed n b => cases h
  | done n b => cases h
  | queued => rfl
  | taken => rfl

theorem advances_uvRun (s : State) : Advances s s.uvRun := by
  refine ⟨rfl, fun _ => rfl, ?_⟩
  intro r q' hq'
  obtain ⟨q, hq, rfl⟩ := Option.map_eq_some_iff.mp hq'
  exact ⟨q, hq, q.phase.complete, rfl, pending_complete⟩

theorem advances_setReq {r : Nat} {q : Request} {p : ReqPhase} (hq : s.reqs r = some q)
    (hp : p.pending = true → q.phase.pending = true) : Advances s (s.setReq r { q with phase := p }) := by
  refine ⟨rfl, fun _ => rfl, ?_⟩
  intro x q' hq'
  rw [setReq_reqs] at hq'
  split at hq'
  · rename_i hx
    cases hq'
    exact ⟨q, hx ▸ hq, p, rfl, hp⟩
  · exact ⟨q', hq', q'.phase, rfl, id⟩

theorem advances_finish (s : State) (fiber : Nat) (q : Request) (onTime : Bool) (result : Int) (bytes : List UInt8) :
    Advances s (s.finish fiber q onTime result bytes) ∧ (s.finish fiber q onTime result bytes).acted = s.acted := by
  obtain ⟨objs, log, acks, heq, hobjs⟩ := s.finish_cases fiber q onTime result bytes
  rw [heq]
  exact ⟨⟨rfl, hobjs, (Advances.refl s).reqs⟩, rfl⟩

theorem advances_turn {fiber : Nat} {w : Wait} {late : Bool} (h : s.turn fiber w late = some s') :
    Advances s s' ∧ s'.acted = s.acted := by
  obtain ⟨q, hq, rfl⟩ := Option.map_eq_some_iff.mp h
  have hrun := advances_uvRun s
  split
  · rename_i result bytes _
    obtain ⟨hadv, hacted⟩ := advances_finish s.uvRun fiber q (!w.deadlineReached) result bytes
    exact ⟨hrun.trans hadv, hacted⟩
  · split
    · split
      · rename_i u hu
        unfold State.uvCancel at hu
        split at hu
        · cases hu
          have hset := @advances_setReq _ w.req q (.done UV_ECANCELED []) hq nofun
          obtain ⟨hadv, hacted⟩ := advances_finish (s.uvRun.setReq w.req { q with phase := .done UV_ECANCELED [] }) fiber q
            false UV_ECANCELED []
          exact ⟨(hrun.trans hset).trans hadv, hacted⟩
        · cases hu
      · exact ⟨⟨hrun.fds, hrun.bindings, hrun.reqs⟩, rfl⟩
    · exact ⟨⟨hrun.fds, hrun.bindings, hrun.reqs⟩, rfl⟩

theorem openFile_file (s : State) (file : FileId) (m : Mode) {fd : Int} (hr : InRange fd) (x : Int) :
    (s.openFile file m fd).fds.file x = if x = fd then some ⟨file, m⟩ else s.fds.file x :=
  file_put s.fds hr ⟨⟨file, m⟩, true⟩ x

theorem Base.openFile (h : Base s) {file : FileId} {m : Mode} {fd : Int} (hr : InRange fd) (hfree : s.fds.get fd = none) :
    Base (s.openFile file m fd) := by
  refine ⟨h.owned.openFile (by rw [Table.file, hfree]; rfl) ?_, h.size⟩
  intro x
  rw [openFile_file s file m hr]
  split <;> rfl

theorem closeFile_file (s : State) (i : Nat) (f : FileObj) (x : Int) :
    (s.closeFile i f).fds.file x = if f.closed = false ∧ x = f.fd then none else s.fds.file x := by
  have hget := (f.closeFile_spec s.fds).2.2 x
  show ((f.closeFile s.fds).2.get x).map Desc.file = _
  rw [hget]
  split <;> rfl

theorem Base.closeFile (h : Base s) {i : Nat} {f : FileObj} (hf : s.objs i = some f) : Base (s.closeFile i f) := by
  refine ⟨h.owned.closeFile hf (f.closeFile_spec s.fds).1 ?_, h.size⟩
  intro x
  rw [closeFile_file]
  split <;> rfl

theorem Own.closeFile (h : Own s) (i : Nat) (f : FileObj) : Own (s.closeFile i f) := by
  refine ⟨h.acted, fun r q d hq hp hd => h.reqs r q d hq hp ?_⟩
  rw [closeFile_file] at hd
  split at hd
  · cases hd
  · exact hd

theorem Base.submit (h : Base s) (fiber i : Nat) (f : FileObj) {kind : ReqKind} (hk : kind ≠ .read 0)
    (offset : Option Nat) (deadlineMs : Int) : Base (s.submit fiber i f kind offset deadlineMs) := by
  refine ⟨h.owned, ?_⟩
  intro r q hq
  rw [submit_reqs] at hq
  split at hq
  · cases hq
    exact hk
  · exact h.size r q hq

/-- The request of an open object is for the file its number refers to. -/
theorem Own.submit (h : Own s) (hb : Base s) (fiber : Nat) {i : Nat} {f : FileObj} (hf : s.objs i = some f)
    (hc : f.closed = false) (kind : ReqKind) (offset : Option Nat) (deadlineMs : Int) :
    Own (s.submit fiber i f kind offset deadlineMs) := by
  refine ⟨h.acted, ?_⟩
  intro r q d hq hp hd hallows
  rw [submit_reqs] at hq
  split at hq
  · cases hq
    have hat := hb.owned.refers i f hf hc
    rw [show s.fds.file f.fd = some d from hd] at hat
    exact Option.some.inj hat
  · exact h.reqs r q d hq hp hd hallows

/-- An `open` keeps the requests on their files exactly at a number that is fresh. -/
theorem own_openFile_iff (h : Own s) {file : FileId} {m : Mode} {fd : Int} (hr : InRange fd) :
    Own (s.openFile file m fd) ↔
      ∀ r q, s.reqs r = some q → q.phase.pending = true → q.fd = fd → m.allows q.kind = true → q.file = file := by
  constructor
  · intro ho r q hq hp hfd hallows
    have hd : (s.openFile file m fd).fds.file q.fd = some ⟨file, m⟩ := by rw [openFile_file s file m hr, if_pos hfd]
    exact (ho.reqs r q ⟨file, m⟩ hq hp hd hallows).symm
  · intro hfresh
    refine ⟨h.acted, ?_⟩
    intro r q d hq hp hd hallows
    rw [openFile_file s file m hr] at hd
    split at hd
    · rename_i hfd
      cases hd
      exact (hfresh r q hq hp hfd hallows).symm
    · exact h.reqs r q d hq hp hd hallows

/-- A thread that executes a request acts on the file that `Own` says. -/
theorem execute_keeps {r : Nat} {q : Request} {k : KernelResult} (hq : s.reqs r = some q) (hp : q.phase = .taken)
    (h : s.execute r q k = some s') : Advances s s' ∧ (Own s → Own s') := by
  obtain ⟨result, bytes, content, acted, rfl, hacted⟩ := execute_cases h
  have hset : Advances s (s.setReq r { q with phase := .executed result bytes }) := advances_setReq hq nofun
  have hadv : Advances s { s.setReq r { q with phase := .executed result bytes } with content := content, acted := acted } :=
    ⟨hset.fds, hset.bindings, hset.reqs⟩
  refine ⟨hadv, fun ho => ho.advance hadv ?_⟩
  intro a ha
  rcases hacted with rfl | ⟨d, hd, hallows, rfl⟩
  · exact ho.acted a ha
  · cases ha with
    | head => exact ho.reqs r q d hq (by rw [hp]; rfl) hd hallows
    | tail _ ha => exact ho.acted a ha

theorem base_start (content : FileId → List UInt8) : Base { content := content } where
  owned := .start _
  size r q hq := by cases hq

theorem own_start (content : FileId → List UInt8) : Own { content := content } where
  acted a ha := by cases ha
  reqs r q d hq := by cases hq

theorem base_step {e : Event} (h : Base s) (hs : step s e = some s') : Base s' := by
  cases e with
  | fstream file mode fd =>
    obtain ⟨⟨-, hr, hfree⟩, hs⟩ := Option.ite_none_right_eq_some.mp hs
    obtain ⟨m, -, rfl⟩ := Option.map_eq_some_iff.mp hs
    exact h.openFile hr hfree
  | close i =>
    obtain ⟨-, hs⟩ := Option.ite_none_right_eq_some.mp hs
    obtain ⟨f, hf, rfl⟩ := Option.map_eq_some_iff.mp hs
    exact h.closeFile hf
  | call fiber i op deadlineMs submitted =>
    obtain ⟨-, hs⟩ := Option.ite_none_right_eq_some.mp hs
    obtain ⟨f, hf, rfl⟩ := Option.map_eq_some_iff.mp hs
    rcases s.start_cases fiber i f deadlineMs submitted op with ⟨v, -, heq⟩ | ⟨-, hk, heq⟩
    · rw [heq]
      exact ⟨h.owned, h.size⟩
    · rw [heq]
      exact h.submit fiber i f hk _ _
  | turn fiber late =>
    obtain ⟨-, hs⟩ := Option.ite_none_right_eq_some.mp hs
    obtain ⟨w, -, hs⟩ := Option.bind_eq_some_iff.mp hs
    exact h.advance (advances_turn hs).1
  | poll =>
    obtain ⟨-, hs⟩ := Option.ite_none_right_eq_some.mp hs
    cases hs
    exact h.advance (advances_uvRun s)
  | take r =>
    obtain ⟨q, hq, hs⟩ := Option.bind_eq_some_iff.mp hs
    split at hs
    · rename_i hp
      cases hs
      exact h.advance (advances_setReq hq fun _ => by rw [hp]; rfl)
    · cases hs
  | exec r k =>
    obtain ⟨q, hq, hs⟩ := Option.bind_eq_some_iff.mp hs
    split at hs
    · rename_i hp
      exact h.advance (execute_keeps hq hp hs).1
    · cases hs

theorem own_step_iff {e : Event} (hb : Base s) (h : Own s) (hs : step s e = some s') : Own s' ↔ FreshFd s e := by
  cases e with
  | fstream file mode fd =>
    obtain ⟨⟨-, hr, -⟩, hs⟩ := Option.ite_none_right_eq_some.mp hs
    obtain ⟨m, hm, rfl⟩ := Option.map_eq_some_iff.mp hs
    rw [own_openFile_iff h hr]
    refine ⟨?_, fun hf r q => hf m r q hm⟩
    intro ho m' r q hm'
    rw [hm] at hm'
    cases hm'
    exact ho r q
  | close i =>
    obtain ⟨-, hs⟩ := Option.ite_none_right_eq_some.mp hs
    obtain ⟨f, hf, rfl⟩ := Option.map_eq_some_iff.mp hs
    exact iff_of_true (h.closeFile i f) trivial
  | call fiber i op deadlineMs submitted =>
    obtain ⟨-, hs⟩ := Option.ite_none_right_eq_some.mp hs
    obtain ⟨f, hf, rfl⟩ := Option.map_eq_some_iff.mp hs
    refine iff_of_true ?_ trivial
    rcases s.start_cases fiber i f deadlineMs submitted op with ⟨v, -, heq⟩ | ⟨hc, -, heq⟩
    · rw [heq]
      exact ⟨h.acted, h.reqs⟩
    · rw [heq]
      exact h.submit hb fiber hf hc _ _ _
  | turn fiber late =>
    obtain ⟨-, hs⟩ := Option.ite_none_right_eq_some.mp hs
    obtain ⟨w, -, hs⟩ := Option.bind_eq_some_iff.mp hs
    obtain ⟨hadv, hacted⟩ := advances_turn hs
    exact iff_of_true (h.advance hadv (by rw [hacted]; exact h.acted)) trivial
  | poll =>
    obtain ⟨-, hs⟩ := Option.ite_none_right_eq_some.mp hs
    cases hs
    exact iff_of_true (h.advance (advances_uvRun s) h.acted) trivial
  | take r =>
    obtain ⟨q, hq, hs⟩ := Option.bind_eq_some_iff.mp hs
    split at hs
    · rename_i hp
      cases hs
      exact iff_of_true (h.advance (advances_setReq hq fun _ => by rw [hp]; rfl) h.acted) trivial
    · cases hs
  | exec r k =>
    obtain ⟨q, hq, hs⟩ := Option.bind_eq_some_iff.mp hs
    split at hs
    · rename_i hp
      exact iff_of_true ((execute_keeps hq hp hs).2 h) trivial
    · cases hs

/-! ## Whole runs -/

/-- The kernel can serve a request on a descriptor that is open for it. -/
theorem execute_acts {r : Nat} {q : Request} {d : OpenDesc} (hd : s.fds.file q.fd = some d)
    (hallows : d.mode.allows q.kind = true) (hsize : q.kind ≠ .read 0) :
    ∃ k, (s.execute r q k).map State.acted = some (⟨q.file, d.file⟩ :: s.acted) := by
  cases hk : q.kind with
  | read size =>
    rw [hk] at hallows hsize
    obtain ⟨rest, hrest⟩ : ∃ rest, rest = (s.content d.file).drop (q.offset.getD 0) := ⟨_, rfl⟩
    have hguard : d.mode.readable = true ∧ min size rest.length ≤ size ∧ min size rest.length ≤ rest.length ∧
        (min size rest.length = 0 → rest = []) := by
      refine ⟨hallows, Nat.min_le_left .., Nat.min_le_right .., fun h0 => List.eq_nil_of_length_eq_zero ?_⟩
      have hpos : size ≠ 0 := fun h0 => hsize (by rw [h0])
      omega
    refine ⟨.moves (min size rest.length) 0, ?_⟩
    simp only [State.execute, hd, hk, ← hrest, if_pos hguard]
    rfl
  | write data =>
    rw [hk] at hallows
    refine ⟨.moves 0 0, ?_⟩
    have hguard : d.mode.writable = true ∧ 0 ≤ data.length := ⟨hallows, Nat.zero_le _⟩
    simp only [State.execute, hd, hk, if_pos hguard]
    rfl
  | fsync =>
    refine ⟨.moves 0 0, ?_⟩
    simp only [State.execute, hd, hk, if_true]
    rfl

theorem pending_acts {r : Nat} {q : Request} {d : OpenDesc} (hq : s.reqs r = some q) (hp : q.phase.pending = true)
    (hd : s.fds.file q.fd = some d) (hallows : d.mode.allows q.kind = true) (hsize : q.kind ≠ .read 0) :
    ∃ es t, (∀ e ∈ es, e.opens = false) ∧ run s es = some t ∧ ⟨q.file, d.file⟩ ∈ t.acted := by
  have htaken : ∀ u : State, u.fds = s.fds → u.reqs r = some { q with phase := .taken } →
      ∃ k t, step u (.exec r k) = some t ∧ ⟨q.file, d.file⟩ ∈ t.acted := by
    intro u hfds hreq
    obtain ⟨k, hk⟩ := @execute_acts u r { q with phase := .taken } d (by rw [hfds]; exact hd) hallows hsize
    obtain ⟨t, ht, hacted⟩ := Option.map_eq_some_iff.mp hk
    refine ⟨k, t, ?_, by rw [hacted]; exact List.mem_cons_self⟩
    rw [step, hreq, Option.bind_some]
    exact ht
  cases hphase : q.phase with
  | queued =>
    have htake : step s (.take r) = some (s.setReq r { q with phase := .taken }) := by
      rw [step, hq, Option.bind_some, hphase]
    obtain ⟨k, t, hexec, hmem⟩ := htaken (s.setReq r { q with phase := .taken }) rfl ((setReq_reqs ..).trans (if_pos rfl))
    exact ⟨[.take r, .exec r k], t, by simp [Event.opens],
      Runs.exec_cons.mpr ⟨_, htake, Runs.exec_cons.mpr ⟨_, hexec, rfl⟩⟩, hmem⟩
  | taken =>
    obtain ⟨k, t, hexec, hmem⟩ := htaken s rfl (by rw [hq, ← hphase])
    exact ⟨[.exec r k], t, by simp [Event.opens], Runs.exec_cons.mpr ⟨_, hexec, rfl⟩, hmem⟩
  | executed n b =>
    rw [hphase] at hp
    cases hp
  | done n b =>
    rw [hphase] at hp
    cases hp

theorem safe_iff (h : Base s) : Safe s ↔ Own s := by
  constructor
  · intro hsafe
    refine ⟨hsafe [] s nofun rfl, fun r q d hq hp hd hallows => ?_⟩
    obtain ⟨es, t, hes, hrun, hmem⟩ := pending_acts hq hp hd hallows (h.size r q hq)
    exact hsafe es t hes hrun _ hmem
  · intro ho es t hes hrun
    have hfresh : Runs.Meets step (fun _ e => e.opens = false) s es := Runs.meets_of_forall fun e he _ => hes e he
    have hown := Runs.exec_meets (I := fun s => Base s ∧ Own s) (fun s e s' hI he hs => ?_) ⟨h, ho⟩ hfresh hrun
    · exact hown.2.acted
    · refine ⟨base_step hI.1 hs, (own_step_iff hI.1 hI.2 hs).mpr ?_⟩
      cases e with
      | fstream => cases he
      | _ => trivial

end

/-- For any order of opens, calls, closes, turns and steps of the pool: every request acts
    on the file its object had open at the call, or fails, now and whatever follows, in every
    state of the run exactly when all its opens are at fresh numbers. -/
theorem requests_own_iff (content : FileId → List UInt8) (es : List Event) (s : State)
    (h : run { content := content } es = some s) :
    Runs.Meets step FreshFd { content := content } es ↔
      ∀ pre post t, es = pre ++ post → run { content := content } pre = some t → Safe t := by
  have hbases : ∀ pre t, run { content := content } pre = some t → Base t := fun pre t =>
    Runs.exec_invariant (fun _ _ _ => base_step) (base_start content)
  rw [Runs.meets_iff_prefixes (fun _ _ _ => base_step) (fun _ _ _ => own_step_iff) (base_start content)
    (own_start content) h]
  exact forall₃_congr fun pre post t => imp_congr_right fun _ => imp_congr_right fun ht => (safe_iff (hbases pre t ht)).symm

/-- A file closed while a read of it waits, and no other opened. -/
theorem requests_own_iff_closed :
    ∃ s, run { content := fun _ => [104] } [.fstream 0 "r" 3, .call 0 0 (.read 1) (-1) true, .turn 0 false, .close 0] =
      some s ∧ Safe s := by
  have h := requests_own_iff (fun _ => [104]) [.fstream 0 "r" 3, .call 0 0 (.read 1) (-1) true, .turn 0 false, .close 0] _
    rfl
  refine ⟨_, rfl, h.mp ⟨?_, fun _ _ => ⟨trivial, fun _ _ => ⟨trivial, fun _ _ => ⟨trivial, fun _ _ => trivial⟩⟩⟩⟩
    _ [] _ (List.append_nil _).symm rfl⟩
  intro m r q _ hq
  cases hq

/-- A read waits in the queue, its file is closed, and another is opened at the number: the
    read returns the bytes of that. -/
theorem wrong_file :
    ∃ s, run { content := fun file => if file = 0 then [104] else [115] } [.fstream 0 "r" 3,
        .call 0 0 (.read 1) (-1) true, .turn 0 false, .close 0, .fstream 1 "r" 3, .take 0, .exec 0 (.moves 1 0),
        .turn 0 false] = some s ∧
      s.log = [(0, .data [115])] ∧ s.acted = [⟨0, 1⟩] :=
  ⟨_, rfl, rfl, rfl⟩

end CovProcess.File
