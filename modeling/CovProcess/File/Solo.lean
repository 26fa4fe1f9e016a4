/-
  CovProcess.File.Solo — a file object that one fiber uses (see `CovProcess.File.Model`), and
  what a turn of its fiber can be (`turn_cases`).

  `solo_step`: while no other fiber uses the object, its requests are the fiber's, which waits
  for the one that is not executed yet.
-/

import CovProcess.File.Descriptors

namespace CovProcess.File

open FdTable State Content

/-! ## A turn -/

/-- What `uv_fs_complete` stores, or will. -/
def ReqPhase.outcome : ReqPhase → Option (Int × List UInt8)
  | .queued => none
  | .taken => none
  | .executed result bytes => some (toInt result, bytes)
  | .done result bytes => some (result, bytes)

@[simp]
theorem outcome_complete (p : ReqPhase) : p.complete.outcome = p.outcome := by
  cases p <;> rfl

theorem outcome_eq_none_iff {p : ReqPhase} : p.outcome = none ↔ p.pending = true := by
  cases p <;> simp [ReqPhase.outcome, ReqPhase.pending]

section

variable {s s' : State}

theorem uvRun_reqs (s : State) (r : Nat) :
    s.uvRun.reqs r = (s.reqs r).map fun q => { q with phase := q.phase.complete } := rfl

theorem complete_uvRun {r : Nat} {q : Request} (hq : s.reqs r = some q) :
    s.uvRun.reqs r = some { q with phase := q.phase.complete } := by
  rw [uvRun_reqs, hq]
  rfl

/-- What a turn does: it ends the call, cancels its request, notes the deadline, or nothing. -/
theorem turn_cases {fiber : Nat} {w : Wait} {late : Bool} {q : Request} (hq : s.reqs w.req = some q)
    (h : s.turn fiber w late = some s') :
    (∃ result bytes, q.phase.outcome = some (result, bytes) ∧
      s' = s.uvRun.finish fiber { q with phase := q.phase.complete } (!w.deadlineReached) result bytes) ∨
    (q.phase = .queued ∧ (w.hasDeadline = true ∧ w.deadlineReached = false ∧ late = true) ∧
      s' = (s.uvRun.setReq w.req { q with phase := .done UV_ECANCELED [] }).finish fiber
        { q with phase := q.phase.complete } false UV_ECANCELED []) ∨
    (q.phase = .taken ∧ (w.hasDeadline = true ∧ w.deadlineReached = false ∧ late = true) ∧
      s' = { s.uvRun with
        fibers := Function.update s.fibers fiber (some { w with deadlineReached := true }), current := none }) ∨
    (q.phase.pending = true ∧ s' = { s.uvRun with current := none }) := by
  simp only [State.turn, complete_uvRun hq, Option.map_some, Option.some_inj] at h
  cases hp : q.phase with
  | executed result bytes =>
    simp only [hp, ReqPhase.complete] at h
    exact .inl ⟨toInt result, bytes, rfl, h.symm⟩
  | done result bytes =>
    simp only [hp, ReqPhase.complete] at h
    exact .inl ⟨result, bytes, rfl, h.symm⟩
  | queued =>
    refine .inr ?_
    simp only [hp, ReqPhase.complete, State.uvCancel] at h
    split at h
    · rename_i hlate
      simp only [Bool.and_eq_true, Bool.not_eq_true', and_assoc] at hlate
      exact .inl ⟨rfl, hlate, h.symm⟩
    · exact .inr (.inr ⟨rfl, h.symm⟩)
  | taken =>
    refine .inr (.inr ?_)
    simp only [hp, ReqPhase.complete, State.uvCancel] at h
    split at h
    · rename_i hlate
      simp only [Bool.and_eq_true, Bool.not_eq_true', and_assoc] at hlate
      exact .inl ⟨rfl, hlate, h.symm⟩
    · exact .inr ⟨rfl, h.symm⟩

/-- A turn after the request's execution ends the call. -/
theorem turn_outcome {fiber : Nat} {w : Wait} {late : Bool} {q : Request} {result : Int} {bytes : List UInt8}
    (hq : s.reqs w.req = some q) (hout : q.phase.outcome = some (result, bytes)) (h : s.turn fiber w late = some s') :
    s' = s.uvRun.finish fiber { q with phase := q.phase.complete } (!w.deadlineReached) result bytes := by
  have hdone : ∀ p, q.phase = p → p.pending = false := by
    rintro p rfl
    rw [← Bool.not_eq_true, ← outcome_eq_none_iff, hout]
    exact Option.some_ne_none _
  rcases turn_cases hq h with ⟨n, b, hout', heq⟩ | ⟨hp, -⟩ | ⟨hp, -⟩ | ⟨hp, -⟩
  · rw [hout] at hout'
    obtain ⟨rfl, rfl⟩ := Prod.mk.inj (Option.some.inj hout')
    exact heq
  · cases hdone _ hp
  · cases hdone _ hp
  · rw [hdone _ rfl] at hp
    cases hp

end

/-! ## Whose requests they are -/

structure Fresh (s : State) : Prop where
  base : Base s
  objs : ∀ j, s.objs j ≠ none ↔ j < s.nobjs
  reqs : ∀ r q, s.reqs r = some q → r < s.nreqs ∧ q.obj < s.nobjs
  waits : ∀ g w, s.fibers g = some w → s.reqs w.req ≠ none
  modes : ∀ j f d, s.objs j = some f → f.closed = false → s.fds.file f.fd = some d → d.mode.append = f.append

/-- The requests of an object are those of a fiber, which waits for the one that is not
    executed yet. -/
structure Solo (φ i : Nat) (s : State) : Prop extends Fresh s where
  own : ∀ g w q, s.fibers g = some w → s.reqs w.req = some q → q.obj = i → g = φ
  pending : ∀ r q, s.reqs r = some q → q.obj = i → q.phase.pending = true → ∃ w, s.fibers φ = some w ∧ w.req = r

/-- The fiber alone uses the object, and none closes it during a call. -/
def UsedBy (φ i : Nat) (s : State) : Event → Prop
  | .call g j .. => j = i → g = φ
  | .close j => j = i → s.fibers φ = none
  | _ => True

/-- The loop and the pool. -/
def Event.serves : Event → Bool
  | .fstream .. => false
  | .close _ => false
  | .call .. => false
  | .turn .. => true
  | .poll => true
  | .take _ => true
  | .exec .. => true

/-- A step that opens and closes nothing and submits no request; a fiber leaves the wait
    only for a request past its execution. -/
structure Keeps (s s' : State) : Prop extends Advances s s' where
  nobjs : s'.nobjs = s.nobjs
  nreqs : s'.nreqs = s.nreqs
  kept : ∀ r q, s.reqs r = some q → ∃ p, s'.reqs r = some { q with phase := p }
  fibers : ∀ g w', s'.fibers g = some w' → ∃ w, s.fibers g = some w ∧ w.req = w'.req
  stays : ∀ g w q', s.fibers g = some w → s'.reqs w.req = some q' → q'.phase.pending = true →
    ∃ w', s'.fibers g = some w' ∧ w'.req = w.req
  appends : ∀ j, (s'.objs j).map FileObj.append = (s.objs j).map FileObj.append

section

variable {φ i : Nat} {s s' : State}

theorem Fresh.keep (h : Fresh s) (hk : Keeps s s') : Fresh s' where
  base := h.base.advance hk.toAdvances
  objs j := by
    rw [hk.nobjs, ← h.objs j]
    have hb := hk.appends j
    cases hs : s.objs j <;> cases hs' : s'.objs j <;> simp_all
  reqs r q' hq' := by
    obtain ⟨q, hq, p, rfl, -⟩ := hk.reqs r q' hq'
    rw [hk.nreqs, hk.nobjs]
    exact h.reqs r q hq
  waits g w' hw' := by
    obtain ⟨w, hw, hreq⟩ := hk.fibers g w' hw'
    obtain ⟨q, hq⟩ := Option.ne_none_iff_exists'.mp (h.waits g w hw)
    obtain ⟨p, hp⟩ := hk.kept w.req q hq
    rw [← hreq, hp]
    exact Option.some_ne_none _
  modes j f' d hf' hc hd := by
    obtain ⟨f, hf, hclosed, hfd, -⟩ := hk.obj hf'
    have happend := hk.appends j
    rw [hf, hf', Option.map_some, Option.map_some, Option.some_inj] at happend
    rw [happend]
    refine h.modes j f d hf (hclosed ▸ hc) ?_
    rw [← hfd, ← hk.fds]
    exact hd

theorem Solo.keep (h : Solo φ i s) (hk : Keeps s s') : Solo φ i s' where
  toFresh := h.toFresh.keep hk
  own g w' q' hw' hq' hobj := by
    obtain ⟨w, hw, hreq⟩ := hk.fibers g w' hw'
    obtain ⟨q, hq, p, rfl, -⟩ := hk.reqs _ q' hq'
    rw [← hreq] at hq
    exact h.own g w q hw hq hobj
  pending r q' hq' hobj hp' := by
    obtain ⟨q, hq, p, rfl, hpend⟩ := hk.reqs r q' hq'
    obtain ⟨w, hw, rfl⟩ := h.pending r q hq hobj (hpend hp')
    exact hk.stays φ w _ hw hq' hp'

theorem keeps_uvRun (s : State) : Keeps s s.uvRun where
  toAdvances := advances_uvRun s
  nobjs := rfl
  nreqs := rfl
  kept _ q hq := ⟨q.phase.complete, complete_uvRun hq⟩
  fibers _ w' hw' := ⟨w', hw', rfl⟩
  stays _ w _ hw _ _ := ⟨w, hw, rfl⟩
  appends _ := rfl

theorem keeps_setReq {r : Nat} {q : Request} {p : ReqPhase} (hq : s.reqs r = some q)
    (hp : p.pending = true → q.phase.pending = true) : Keeps s (s.setReq r { q with phase := p }) where
  toAdvances := advances_setReq hq hp
  nobjs := rfl
  nreqs := rfl
  kept x q' hq' := by
    rw [setReq_reqs]
    split
    · rename_i hx
      rw [hx, hq, Option.some_inj] at hq'
      exact ⟨p, by rw [hq']⟩
    · exact ⟨q'.phase, hq'⟩
  fibers _ w' hw' := ⟨w', hw', rfl⟩
  stays _ w _ hw _ _ := ⟨w, hw, rfl⟩
  appends _ := rfl

theorem Keeps.trans {s'' : State} (h : Keeps s s') (h' : Keeps s' s'') : Keeps s s'' where
  toAdvances := h.toAdvances.trans h'.toAdvances
  nobjs := h'.nobjs.trans h.nobjs
  nreqs := h'.nreqs.trans h.nreqs
  kept r q hq := by
    obtain ⟨p, hp⟩ := h.kept r q hq
    obtain ⟨p', hp'⟩ := h'.kept r _ hp
    exact ⟨p', hp'⟩
  fibers g w'' hw'' := by
    obtain ⟨w', hw', hreq'⟩ := h'.fibers g w'' hw''
    obtain ⟨w, hw, hreq⟩ := h.fibers g w' hw'
    exact ⟨w, hw, hreq.trans hreq'⟩
  stays g w q'' hw hq'' hp := by
    obtain ⟨q', hq', p, rfl, hpend⟩ := h'.reqs _ q'' hq''
    obtain ⟨w', hw', hreq⟩ := h.stays g w q' hw hq' (hpend hp)
    obtain ⟨w'', hw'', hreq'⟩ := h'.stays g w' _ hw' (by rw [hreq]; exact hq'') hp
    exact ⟨w'', hw'', hreq'.trans hreq⟩
  appends j := (h'.appends j).trans (h.appends j)

theorem append_finish (f : FileObj) (kind : ReqKind) (onTime : Bool) (result : Int) (bytes : List UInt8) :
    (f.finish kind onTime result bytes).1.append = f.append := by
  unfold FileObj.finish
  split <;> repeat' split
  all_goals rfl

theorem keeps_finish (fiber : Nat) {q : Request} {f : FileObj} (hf : s.objs q.obj = some f) (onTime : Bool)
    (result : Int) (bytes : List UInt8) {w : Wait} (hw : s.fibers fiber = some w)
    (hdone : ∀ q', s.reqs w.req = some q' → q'.phase.pending = false) :
    Keeps s (s.finish fiber q onTime result bytes) := by
  obtain ⟨acks, heq⟩ := s.finish_spec fiber hf onTime result bytes
  refine ⟨(advances_finish s fiber q onTime result bytes).1, ?_, ?_, ?_, ?_, ?_, ?_⟩
  all_goals rw [heq]
  · intro r q hq
    exact ⟨q.phase, hq⟩
  · intro g w' hw'
    have hupd : (if g = fiber then none else s.fibers g) = some w' := (Function.update_apply ..).symm.trans hw'
    split at hupd
    · cases hupd
    · exact ⟨w', hupd, rfl⟩
  · intro g w' q' hw' hq' hp
    have hne : g ≠ fiber := by
      rintro rfl
      rw [hw] at hw'
      cases hw'
      rw [hdone q' hq'] at hp
      cases hp
    exact ⟨w', (Function.update_of_ne hne ..).trans hw', rfl⟩
  · intro j
    show (Function.update s.objs q.obj _ j).map FileObj.append = _
    rw [Function.update_apply]
    split
    · rename_i hj
      rw [hj, hf, Option.map_some, Option.map_some, append_finish]
    · rfl

theorem Keeps.leave (h : Keeps s s') : Keeps s { s' with current := none } :=
  ⟨⟨h.fds, h.bindings, h.reqs⟩, h.nobjs, h.nreqs, h.kept, h.fibers, h.stays, h.appends⟩

theorem keeps_turn (h : Fresh s) {fiber : Nat} {w : Wait} {late : Bool} (hw : s.fibers fiber = some w)
    (hs : s.turn fiber w late = some s') : Keeps s s' := by
  obtain ⟨q, hq⟩ := Option.ne_none_iff_exists'.mp (h.waits fiber w hw)
  obtain ⟨f, hf⟩ := Option.ne_none_iff_exists'.mp ((h.objs q.obj).mpr (h.reqs _ q hq).2)
  have hrun := keeps_uvRun s
  have hcomplete := complete_uvRun hq
  rcases turn_cases hq hs with ⟨result, bytes, hout, rfl⟩ | ⟨-, -, rfl⟩ | ⟨-, -, rfl⟩ | ⟨-, rfl⟩
  · refine hrun.trans (keeps_finish (s := s.uvRun) fiber (q := { q with phase := q.phase.complete }) hf _ _ _ hw ?_)
    intro q' hq'
    rw [hcomplete] at hq'
    cases hq'
    rw [← Bool.not_eq_true, ← outcome_eq_none_iff, outcome_complete, hout]
    exact Option.some_ne_none _
  · -- the cancelled request is done before its call ends
    have hset : Keeps s.uvRun (s.uvRun.setReq w.req { q with phase := .done UV_ECANCELED [] }) :=
      keeps_setReq (q := { q with phase := q.phase.complete }) (p := .done UV_ECANCELED []) hcomplete nofun
    refine (hrun.trans hset).trans (keeps_finish (s := s.uvRun.setReq w.req { q with phase := .done UV_ECANCELED [] }) fiber
      (q := { q with phase := q.phase.complete }) hf _ _ _ hw ?_)
    intro q' hq'
    rw [setReq_reqs, if_pos rfl] at hq'
    cases hq'
    rfl
  · refine ⟨⟨hrun.fds, hrun.bindings, hrun.reqs⟩, rfl, rfl, hrun.kept, ?_, ?_, hrun.appends⟩
    · intro g w' hw'
      have hupd : (if g = fiber then some { w with deadlineReached := true } else s.fibers g) = some w' :=
        (Function.update_apply ..).symm.trans hw'
      split at hupd
      · rename_i hg
        cases hupd
        exact ⟨w, hg ▸ hw, rfl⟩
      · exact ⟨w', hupd, rfl⟩
    · intro g w' q' hw' _ _
      by_cases hg : g = fiber
      · subst hg
        rw [hw] at hw'
        cases hw'
        exact ⟨_, Function.update_self .., rfl⟩
      · exact ⟨w', (Function.update_of_ne hg ..).trans hw', rfl⟩
  · exact hrun.leave

theorem keeps_exec {r : Nat} {q : Request} {k : KernelResult} (hq : s.reqs r = some q) (hs : s.execute r q k = some s') :
    Keeps s s' := by
  obtain ⟨result, bytes, content, acted, rfl, -⟩ := execute_cases hs
  have hset : Keeps s (s.setReq r { q with phase := .executed result bytes }) := keeps_setReq hq nofun
  exact ⟨⟨hset.fds, hset.bindings, hset.reqs⟩, rfl, rfl, hset.kept, hset.fibers, hset.stays, hset.appends⟩

theorem keeps_step (h : Fresh s) {e : Event} (he : e.serves = true) (hs : step s e = some s') : Keeps s s' := by
  cases e with
  | fstream file mode fd => cases he
  | close j => cases he
  | call g j op d b => cases he
  | turn fiber late =>
    obtain ⟨-, hs⟩ := Option.ite_none_right_eq_some.mp hs
    obtain ⟨w, hw, hs⟩ := Option.bind_eq_some_iff.mp hs
    exact keeps_turn h hw hs
  | poll =>
    obtain ⟨-, hs⟩ := Option.ite_none_right_eq_some.mp hs
    cases hs
    exact keeps_uvRun s
  | take r =>
    obtain ⟨q, hq, hs⟩ := Option.bind_eq_some_iff.mp hs
    split at hs
    · rename_i hp
      cases hs
      exact keeps_setReq hq fun _ => by rw [hp]; rfl
    · cases hs
  | exec r k =>
    obtain ⟨q, hq, hs⟩ := Option.bind_eq_some_iff.mp hs
    split at hs
    · exact keeps_exec hq hs
    · cases hs

theorem Fresh.openFile (h : Fresh s) {file : FileId} {m : Mode} {fd : Int} (hr : InRange fd)
    (hfree : s.fds.get fd = none) : Fresh (s.openFile file m fd) where
  base := h.base.openFile hr hfree
  objs j := by
    show Function.update s.objs s.nobjs _ j ≠ none ↔ j < s.nobjs + 1
    have hold := h.objs j
    rw [Function.update_apply]
    split
    · rename_i hj
      exact iff_of_true (Option.some_ne_none _) (by omega)
    · rw [hold]
      omega
  reqs r q hq := ⟨(h.reqs r q hq).1, Nat.lt_succ_of_lt (h.reqs r q hq).2⟩
  waits := h.waits
  modes j f d hf hc hd := by
    have hupd : (if j = s.nobjs then some (.openFile file m fd) else s.objs j) = some f :=
      (Function.update_apply ..).symm.trans hf
    rw [openFile_file s file m hr] at hd
    split at hupd
    · cases hupd
      have hd' : some ⟨file, m⟩ = some d := (if_pos rfl).symm.trans hd
      cases hd'
      rfl
    · rw [if_neg] at hd
      · exact h.modes j f d hupd hc hd
      · -- the number of an open object is not free
        intro hfd
        have hat := h.base.owned.refers j f hupd hc
        rw [hfd, Table.file, hfree] at hat
        cases hat

theorem Fresh.closeFile (h : Fresh s) {j : Nat} {f : FileObj} (hf : s.objs j = some f) : Fresh (s.closeFile j f) where
  base := h.base.closeFile hf
  objs x := by
    show (s.setObj j _).objs x ≠ none ↔ x < s.nobjs
    rw [setObj_objs, ← h.objs x]
    split
    · rename_i hx
      rw [hx, hf]
      exact iff_of_true (Option.some_ne_none _) (Option.some_ne_none _)
    · exact Iff.rfl
  reqs := h.reqs
  waits := h.waits
  modes x g d hg hc hd := by
    have hupd : (s.setObj j (f.closeFile s.fds).1).objs x = some g := hg
    rw [setObj_objs] at hupd
    split at hupd
    · cases hupd
      rw [(f.closeFile_spec s.fds).1] at hc
      cases hc
    · refine h.modes x g d hupd hc ?_
      rw [closeFile_file] at hd
      split at hd
      · cases hd
      · exact hd

theorem Fresh.submit (h : Fresh s) (fiber : Nat) {j : Nat} {f : FileObj} (hf : s.objs j = some f) {kind : ReqKind}
    (hk : kind ≠ .read 0) (offset : Option Nat) (deadlineMs : Int) :
    Fresh (s.submit fiber j f kind offset deadlineMs) where
  base := h.base.submit fiber j f hk offset deadlineMs
  objs := h.objs
  reqs r q hq := by
    rw [submit_reqs] at hq
    show r < s.nreqs + 1 ∧ q.obj < s.nobjs
    split at hq
    · rename_i hr
      cases hq
      exact ⟨by omega, (h.objs j).mp (by rw [hf]; exact Option.some_ne_none _)⟩
    · have := h.reqs r q hq
      exact ⟨by omega, this.2⟩
  waits g w hw := by
    rw [submit_fibers] at hw
    rw [submit_reqs]
    split at hw
    · cases hw
      rw [if_pos rfl]
      exact Option.some_ne_none _
    · split
      · exact Option.some_ne_none _
      · exact h.waits g w hw
  modes := h.modes

theorem fresh_start (content : FileId → List UInt8) : Fresh { content := content } where
  base := base_start content
  objs j := ⟨fun h => absurd rfl h, fun h => absurd h (Nat.not_lt_zero j)⟩
  reqs r q hq := by cases hq
  waits g w hw := by cases hw
  modes j f d hf := by cases hf

theorem fresh_step {e : Event} (h : Fresh s) (hs : step s e = some s') : Fresh s' := by
  cases e with
  | fstream file mode fd =>
    obtain ⟨⟨-, hr, hfree⟩, hs⟩ := Option.ite_none_right_eq_some.mp hs
    obtain ⟨m, -, rfl⟩ := Option.map_eq_some_iff.mp hs
    exact h.openFile hr hfree
  | close j =>
    obtain ⟨-, hs⟩ := Option.ite_none_right_eq_some.mp hs
    obtain ⟨f, hf, rfl⟩ := Option.map_eq_some_iff.mp hs
    exact h.closeFile hf
  | call g j op d b =>
    obtain ⟨-, hs⟩ := Option.ite_none_right_eq_some.mp hs
    obtain ⟨f, hf, rfl⟩ := Option.map_eq_some_iff.mp hs
    rcases s.start_refused g j f d b op with ⟨v, -, heq⟩ | ⟨-, hk, heq⟩
    · rw [heq]
      exact ⟨⟨h.base.owned, h.base.size⟩, h.objs, h.reqs, h.waits, h.modes⟩
    · rw [heq]
      exact h.submit g hf hk _ d
  | turn fiber late => exact h.keep (keeps_step h rfl hs)
  | poll => exact h.keep (keeps_step h rfl hs)
  | take r => exact h.keep (keeps_step h rfl hs)
  | exec r k => exact h.keep (keeps_step h rfl hs)

theorem solo_step {e : Event} (h : Solo φ i s) (hu : UsedBy φ i s e) (hs : step s e = some s') : Solo φ i s' := by
  cases e with
  | fstream file mode fd =>
    have hfresh := fresh_step h.toFresh hs
    obtain ⟨-, hs⟩ := Option.ite_none_right_eq_some.mp hs
    obtain ⟨m, -, rfl⟩ := Option.map_eq_some_iff.mp hs
    exact ⟨hfresh, h.own, h.pending⟩
  | close j =>
    have hfresh := fresh_step h.toFresh hs
    obtain ⟨-, hs⟩ := Option.ite_none_right_eq_some.mp hs
    obtain ⟨f, -, rfl⟩ := Option.map_eq_some_iff.mp hs
    exact ⟨hfresh, h.own, h.pending⟩
  | call g j op d b =>
    have hfresh := fresh_step h.toFresh hs
    obtain ⟨⟨-, hg⟩, hs⟩ := Option.ite_none_right_eq_some.mp hs
    rw [Option.isNone_iff_eq_none] at hg
    obtain ⟨f, hf, rfl⟩ := Option.map_eq_some_iff.mp hs
    rcases s.start_refused g j f d b op with ⟨v, -, heq⟩ | ⟨-, -, heq⟩
    · rw [heq] at hfresh ⊢
      exact ⟨hfresh, h.own, h.pending⟩
    · rw [heq] at hfresh ⊢
      refine ⟨hfresh, ?_, ?_⟩
      · intro g' w q hw hq hobj
        rw [submit_fibers] at hw
        rw [submit_reqs] at hq
        split at hw
        · rename_i hg'
          cases hw
          rw [if_pos rfl] at hq
          cases hq
          exact hg'.trans (hu hobj)
        · split at hq
          · rename_i hr
            obtain ⟨q', hq'⟩ := Option.ne_none_iff_exists'.mp (h.waits g' w hw)
            have := (h.reqs _ _ hq').1
            omega
          · exact h.own g' w q hw hq hobj
      · intro r q hq hobj hp
        rw [submit_reqs] at hq
        rw [submit_fibers]
        split at hq
        · rename_i hr
          cases hq
          rw [if_pos (hu hobj).symm]
          exact ⟨_, rfl, hr.symm⟩
        · obtain ⟨w, hw, hreq⟩ := h.pending r q hq hobj hp
          rw [if_neg]
          · exact ⟨w, hw, hreq⟩
          · rintro rfl
            rw [hg] at hw
            cases hw
  | turn fiber late => exact h.keep (keeps_step h.toFresh rfl hs)
  | poll => exact h.keep (keeps_step h.toFresh rfl hs)
  | take r => exact h.keep (keeps_step h.toFresh rfl hs)
  | exec r k => exact h.keep (keeps_step h.toFresh rfl hs)

end

end CovProcess.File
