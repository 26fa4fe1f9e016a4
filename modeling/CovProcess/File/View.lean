/-
  CovProcess.File.View — one file object as the fiber that uses it sees it (see
  `CovProcess.File.Solo`): the object, its file, the call under way and what the calls
  returned. A `View` has no loop, no pool and no other fiber.

  `view_step`: a step of the system is a step of the view, which may be none, if no other
  fiber uses the object and nothing else changes the file.
-/

import CovProcess.File.Solo

namespace CovProcess.File

open FdTable State Content

/-! ## The view -/

/-- A call that waits, with what came of its request. -/
structure Call where
  kind : ReqKind
  offset : Option Nat
  reached : Bool
  outcome : Option (Int × List UInt8)

structure View where
  obj : FileObj
  call : Option Call
  content : List UInt8
  /-- Newest first. -/
  results : List Returned

/-- What the pool can do with a request: its result and the bytes read, and the file after it. -/
def Executes (append : Bool) (kind : ReqKind) (offset : Option Nat) (old : List UInt8) (result : Int)
    (bytes new : List UInt8) : Prop :=
  (∃ err : Fin 4095, result = -(err.val + 1) ∧ bytes = [] ∧ new = old) ∨
    ∃ n own : Nat, result = n ∧ match kind with
      | .read size => n ≤ size ∧ n ≤ (old.drop (offset.getD own)).length ∧
          (n = 0 → old.drop (offset.getD own) = []) ∧ bytes = (old.drop (offset.getD own)).take n ∧ new = old
      | .write data => n ≤ data.length ∧ bytes = [] ∧
          new = pwrite 0 old (if append then old.length else offset.getD own) (data.take n)
      | .fsync => n = 0 ∧ bytes = [] ∧ new = old

theorem of_none {α : Type} {P : α → Prop} : ∀ a, none = some a → P a := nofun

theorem of_no_outcome {P : Int → List UInt8 → Prop} : ∀ n b, none = some (n, b) → P n b := nofun

/-- A step, with the operation if a call starts. -/
inductive View.Step : Option Op → View → View → Prop
  | idle (v : View) : Step none v v
  | refuse {op : Op} {f : FileObj} {c : List UInt8} {rs : List Returned} {r : Returned} : op.Refused r →
      Step (some op) ⟨f, none, c, rs⟩ ⟨f, none, c, r :: rs⟩
  | submit {op : Op} {f : FileObj} {c : List UInt8} {rs : List Returned} : f.closed = false → op.kind ≠ .read 0 →
      Step (some op) ⟨f, none, c, rs⟩ ⟨f, some ⟨op.kind, op.offset f, false, none⟩, c, rs⟩
  | execute {f : FileObj} {kind : ReqKind} {offset : Option Nat} {reached : Bool} {old new bytes : List UInt8}
      {rs : List Returned} {result : Int} : Executes f.append kind offset old result bytes new →
      Step none ⟨f, some ⟨kind, offset, reached, none⟩, old, rs⟩
        ⟨f, some ⟨kind, offset, reached, some (toInt result, bytes)⟩, new, rs⟩
  /-- The deadline passes, and the request is at a thread. -/
  | deadline {f : FileObj} {kind : ReqKind} {offset : Option Nat} {c : List UInt8} {rs : List Returned} :
      Step none ⟨f, some ⟨kind, offset, false, none⟩, c, rs⟩ ⟨f, some ⟨kind, offset, true, none⟩, c, rs⟩
  | cancel {f : FileObj} {kind : ReqKind} {offset : Option Nat} {c : List UInt8} {rs : List Returned} :
      Step none ⟨f, some ⟨kind, offset, false, none⟩, c, rs⟩
        ⟨(f.finish kind false UV_ECANCELED []).1, none, c, (f.finish kind false UV_ECANCELED []).2 :: rs⟩
  | finish {f : FileObj} {kind : ReqKind} {offset : Option Nat} {reached : Bool} {c bytes : List UInt8}
      {rs : List Returned} {result : Int} :
      Step none ⟨f, some ⟨kind, offset, reached, some (result, bytes)⟩, c, rs⟩
        ⟨(f.finish kind (!reached) result bytes).1, none, c, (f.finish kind (!reached) result bytes).2 :: rs⟩
  | close {f f' : FileObj} {c : List UInt8} {rs : List Returned} : f'.closed = true → f'.readPos = f.readPos →
      f'.writePos = f.writePos → f'.append = f.append → f'.file = f.file → Step none ⟨f, none, c, rs⟩ ⟨f', none, c, rs⟩

def State.returned (s : State) (φ : Nat) : List Returned := s.log.filterMap fun e => if e.1 = φ then some e.2 else none

/-- The call is the fiber's wait. -/
def Waits (φ i : Nat) (s : State) (f : FileObj) : Option Call → Prop
  | none => s.fibers φ = none
  | some c => f.closed = false ∧ ∃ w q, s.fibers φ = some w ∧ s.reqs w.req = some q ∧ q.obj = i ∧ q.fd = f.fd ∧
      w.deadlineReached = c.reached ∧ q.kind = c.kind ∧ q.offset = c.offset ∧ q.phase.outcome = c.outcome

/-- What the fiber sees of the object, the results since it had `old`. -/
structure Views (φ i : Nat) (old : List Returned) (s : State) (v : View) : Prop where
  obj : s.objs i = some v.obj
  content : s.content v.obj.file = v.content
  results : s.returned φ = v.results ++ old
  call : Waits φ i s v.obj v.call

/-- The fiber alone uses the object, and uses no other; only the object's requests change
    the file. -/
structure Session (φ i : Nat) (file : FileId) (s : State) (e : Event) : Prop where
  used : UsedBy φ i s e
  only : ∀ j op d b, e = .call φ j op d b → j = i
  content : (∀ r k q, e = .exec r k → s.reqs r = some q → q.obj ≠ i) → ∀ s', step s e = some s' →
    s'.content file = s.content file

def Event.op (φ : Nat) : Event → Option Op
  | .call g _ op _ _ => if g = φ then some op else none
  | _ => none

/-! ## The steps -/

section

variable {φ i : Nat} {old : List Returned} {s s' : State} {v : View}

theorem returned_cons (s : State) (φ : Nat) (e : Nat × Returned) {log : List (Nat × Returned)}
    (h : log = e :: s.log) : (log.filterMap fun e => if e.1 = φ then some e.2 else none) =
      if e.1 = φ then e.2 :: s.returned φ else s.returned φ := by
  rw [h]
  split
  · rename_i he
    exact List.filterMap_cons_some (if_pos he)
  · rename_i he
    exact List.filterMap_cons_none (if_neg he)

theorem finish_file (f : FileObj) (kind : ReqKind) (onTime : Bool) (result : Int) (bytes : List UInt8) :
    (f.finish kind onTime result bytes).1.file = f.file :=
  congrArg (fun b : Bool × Int × FileId => b.2.2) (finish_binding f kind onTime result bytes)

theorem Views.frame (h : Views φ i old s v) (hobj : s'.objs i = s.objs i) (hfiber : s'.fibers φ = s.fibers φ)
    (hreqs : ∀ r q, s.reqs r = some q → q.obj = i →
      ∃ p, s'.reqs r = some { q with phase := p } ∧ p.outcome = q.phase.outcome)
    (hcontent : s'.content v.obj.file = s.content v.obj.file) (hret : s'.returned φ = s.returned φ) :
    Views φ i old s' v where
  obj := hobj.trans h.obj
  content := hcontent.trans h.content
  results := hret.trans h.results
  call := by
    have hcall := h.call
    cases hc : v.call with
    | none =>
      rw [hc] at hcall
      exact hfiber.trans hcall
    | some c =>
      rw [hc] at hcall
      obtain ⟨hopen, w, q, hw, hq, hi, hfd, hreached, hkind, hoffset, hout⟩ := hcall
      obtain ⟨p, hp, hp'⟩ := hreqs w.req q hq hi
      exact ⟨hopen, w, _, hfiber.trans hw, hp, hi, hfd, hreached, hkind, hoffset, hp'.trans hout⟩

theorem reqs_same (r : Nat) (q : Request) (hq : s.reqs r = some q) (_ : q.obj = i) :
    ∃ p, s.reqs r = some { q with phase := p } ∧ p.outcome = q.phase.outcome :=
  ⟨q.phase, hq, rfl⟩

theorem reqs_uvRun {r : Nat} {q : Request} (hq : s.reqs r = some q) :
    ∃ p, s.uvRun.reqs r = some { q with phase := p } ∧ p.outcome = q.phase.outcome :=
  ⟨q.phase.complete, complete_uvRun hq, outcome_complete _⟩

theorem execute_spec {r : Nat} {q : Request} {k : KernelResult} {d : OpenDesc} (hd : s.fds.file q.fd = some d)
    (h : s.execute r q k = some s') : ∃ result bytes new acted, s' = { s.setReq r { q with phase := .executed result bytes } with
        content := Function.update s.content d.file new, acted := acted } ∧
      Executes d.mode.append q.kind q.offset (s.content d.file) result bytes new := by
  unfold State.execute at h
  rw [hd] at h
  cases k with
  | fails err =>
    cases h
    exact ⟨_, _, s.content d.file, s.acted, by rw [Function.update_eq_self]; rfl, .inl ⟨err, rfl, rfl, rfl⟩⟩
  | moves n own =>
    simp only at h
    cases hk : q.kind with
    | read size =>
      simp only [hk] at h
      obtain ⟨⟨-, hsize, hlen, hzero⟩, h⟩ := Option.ite_none_right_eq_some.mp h
      cases h
      exact ⟨_, _, s.content d.file, _, by rw [Function.update_eq_self]; rfl,
        .inr ⟨n, own, rfl, hsize, hlen, hzero, rfl, rfl⟩⟩
    | write data =>
      simp only [hk] at h
      obtain ⟨⟨-, hlen⟩, h⟩ := Option.ite_none_right_eq_some.mp h
      cases h
      exact ⟨_, _, _, _, rfl, .inr ⟨n, own, rfl, hlen, rfl, rfl⟩⟩
    | fsync =>
      simp only [hk] at h
      obtain ⟨hzero, h⟩ := Option.ite_none_right_eq_some.mp h
      cases h
      exact ⟨_, _, s.content d.file, _, by rw [Function.update_eq_self]; rfl, .inr ⟨n, own, by rw [hzero]; rfl, hzero, rfl, rfl⟩⟩

theorem Views.finish_other (h : Views φ i old s v) (hfresh : Fresh s) {g : Nat} (hg : g ≠ φ) {q : Request}
    (hq : q.obj < s.nobjs) (hi : q.obj ≠ i) (onTime : Bool) (result : Int) (bytes : List UInt8) :
    Views φ i old (s.finish g q onTime result bytes) v := by
  obtain ⟨f, hf⟩ := Option.ne_none_iff_exists'.mp ((hfresh.objs q.obj).mpr hq)
  obtain ⟨acks, heq⟩ := s.finish_spec g hf onTime result bytes
  rw [heq]
  exact h.frame (Function.update_of_ne (Ne.symm hi) ..) (Function.update_of_ne (Ne.symm hg) ..) reqs_same rfl
    ((returned_cons s φ _ rfl).trans (if_neg hg))

theorem Views.finish_own (h : Views φ i old s v) {q : Request} (hi : q.obj = i) (onTime : Bool) (result : Int)
    (bytes : List UInt8) : Views φ i old (s.finish φ q onTime result bytes)
      ⟨(v.obj.finish q.kind onTime result bytes).1, none, v.content,
        (v.obj.finish q.kind onTime result bytes).2 :: v.results⟩ := by
  have hf : s.objs q.obj = some v.obj := by
    rw [hi]
    exact h.obj
  obtain ⟨acks, heq⟩ := s.finish_spec φ hf onTime result bytes
  rw [heq]
  refine ⟨?_, ?_, ?_, Function.update_self ..⟩
  · show Function.update s.objs q.obj _ i = _
    rw [hi, Function.update_self]
  · show s.content (v.obj.finish q.kind onTime result bytes).1.file = _
    rw [finish_file]
    exact h.content
  · refine (returned_cons s φ _ rfl).trans ?_
    rw [if_pos rfl, h.results]
    rfl

theorem Views.uvRun (h : Views φ i old s v) : Views φ i old s.uvRun v :=
  h.frame rfl rfl (fun _ _ hq _ => reqs_uvRun hq) rfl rfl

theorem Views.setReq_other (h : Views φ i old s v) {r : Nat} {q : Request} (hq : s.reqs r = some q) (hi : q.obj ≠ i)
    (p : ReqPhase) : Views φ i old (s.setReq r { q with phase := p }) v := by
  refine h.frame rfl rfl ?_ rfl rfl
  intro x q' hq' hi'
  refine ⟨q'.phase, ?_, rfl⟩
  rw [setReq_reqs, if_neg]
  · exact hq'
  · rintro rfl
    rw [hq] at hq'
    cases hq'
    exact hi hi'

theorem Views.turn_other (h : Views φ i old s v) (hsolo : Solo φ i s) {g : Nat} (hg : g ≠ φ) {w : Wait} {late : Bool}
    (hw : s.fibers g = some w) (hs : s.turn g w late = some s') : Views φ i old s' v := by
  obtain ⟨q, hq⟩ := Option.ne_none_iff_exists'.mp (hsolo.waits g w hw)
  have hi : q.obj ≠ i := fun hi => hg (hsolo.own g w q hw hq hi)
  have hlt : q.obj < s.nobjs := (hsolo.reqs w.req q hq).2
  have hfresh : Fresh s.uvRun := hsolo.toFresh.keep (keeps_uvRun s)
  have hcomplete := complete_uvRun hq
  rcases turn_cases hq hs with ⟨result, bytes, -, rfl⟩ | ⟨-, -, rfl⟩ | ⟨-, -, rfl⟩ | ⟨-, rfl⟩
  · exact h.uvRun.finish_other hfresh hg hlt hi _ _ _
  · have hset : Views φ i old (s.uvRun.setReq w.req { q with phase := .done UV_ECANCELED [] }) v :=
      h.uvRun.setReq_other (q := { q with phase := q.phase.complete }) hcomplete hi (.done UV_ECANCELED [])
    have hkeep : Keeps s.uvRun (s.uvRun.setReq w.req { q with phase := .done UV_ECANCELED [] }) :=
      keeps_setReq (q := { q with phase := q.phase.complete }) (p := .done UV_ECANCELED []) hcomplete nofun
    exact hset.finish_other (hfresh.keep hkeep) hg hlt hi _ _ _
  · exact h.uvRun.frame rfl (Function.update_of_ne (Ne.symm hg) ..) reqs_same rfl rfl
  · exact h.uvRun.frame rfl rfl reqs_same rfl rfl

theorem Views.turn_own (h : Views φ i old s v) {w : Wait} {late : Bool} (hw : s.fibers φ = some w)
    (hs : s.turn φ w late = some s') : ∃ v', Views φ i old s' v' ∧ View.Step none v v' := by
  obtain ⟨f, call, c, rs⟩ := v
  have hcall := h.call
  cases call with
  | none =>
    rw [show s.fibers φ = none from hcall] at hw
    cases hw
  | some call =>
    obtain ⟨kind, offset, reached, outcome⟩ := call
    obtain ⟨hopen, w', q, hw', hq, hi, hfd, hreached, hkind, hoffset, hout⟩ := hcall
    simp only at hreached hkind hoffset hout
    rw [hw, Option.some_inj] at hw'
    subst hw' hkind hoffset hreached hout
    rcases turn_cases hq hs with ⟨result, bytes, hout, rfl⟩ | ⟨hp, ⟨-, hreached, -⟩, rfl⟩ | ⟨hp, ⟨-, hreached, -⟩, rfl⟩ | ⟨-, rfl⟩
    · refine ⟨_, h.uvRun.finish_own (q := { q with phase := q.phase.complete }) hi (!w.deadlineReached) result bytes, ?_⟩
      rw [hout]
      exact .finish
    · have hset : Views φ i old (s.uvRun.setReq w.req { q with phase := .done UV_ECANCELED [] })
          ⟨f, some ⟨q.kind, q.offset, w.deadlineReached, some (UV_ECANCELED, [])⟩, c, rs⟩ := by
        refine ⟨h.obj, h.content, h.results, hopen, w, { q with phase := .done UV_ECANCELED [] }, hw, ?_, hi, hfd, rfl, rfl,
          rfl, rfl⟩
        rw [setReq_reqs, if_pos rfl]
      refine ⟨_, hset.finish_own (q := { q with phase := q.phase.complete }) hi false UV_ECANCELED [], ?_⟩
      rw [hp, hreached]
      exact .cancel
    · refine ⟨⟨f, some ⟨q.kind, q.offset, true, none⟩, c, rs⟩, ⟨h.obj, h.content, h.results, ?_⟩, ?_⟩
      · obtain ⟨p, hp', hout⟩ := reqs_uvRun hq
        rw [hp] at hout
        exact ⟨hopen, { w with deadlineReached := true }, _, Function.update_self .., hp', hi, hfd, rfl, rfl, rfl, hout⟩
      · rw [hp, hreached]
        exact .deadline
    · exact ⟨_, h.uvRun.frame rfl rfl reqs_same rfl rfl, .idle _⟩

theorem Views.execute_own (h : Views φ i old s v) (hsolo : Solo φ i s) {r : Nat} {q : Request} {k : KernelResult}
    (hq : s.reqs r = some q) (hi : q.obj = i) (hp : q.phase = .taken) (hs : s.execute r q k = some s') :
    ∃ v', Views φ i old s' v' ∧ View.Step none v v' := by
  obtain ⟨w, hw, hreq⟩ := hsolo.pending r q hq hi (by rw [hp]; rfl)
  obtain ⟨f, call, c, rs⟩ := v
  have hcall := h.call
  cases call with
  | none =>
    rw [show s.fibers φ = none from hcall] at hw
    cases hw
  | some call =>
    obtain ⟨kind, offset, reached, outcome⟩ := call
    obtain ⟨hopen, w', q', hw', hq', -, hfd, hreached, hkind, hoffset, hout⟩ := hcall
    simp only at hreached hkind hoffset hout
    rw [hw, Option.some_inj] at hw'
    subst hw'
    rw [hreq, hq, Option.some_inj] at hq'
    subst hq' hkind hoffset hreached hout hreq
    -- the number of the open object refers to its file
    have hat := hsolo.base.owned.refers i f h.obj hopen
    obtain ⟨d, hd, hfile⟩ := Option.map_eq_some_iff.mp hat
    have hmode := hsolo.modes i f d h.obj hopen hd
    rw [← hfd] at hd
    obtain ⟨result, bytes, new, acted, rfl, hexec⟩ := execute_spec hd hs
    have hcontent : s.content d.file = c := by
      rw [hfile]
      exact h.content
    rw [hcontent, hmode] at hexec
    refine ⟨⟨f, some ⟨q.kind, q.offset, w.deadlineReached, some (toInt result, bytes)⟩, new, rs⟩,
      ⟨h.obj, ?_, h.results, hopen, w, { q with phase := .executed result bytes }, hw, ?_, hi, hfd, rfl, rfl, rfl, rfl⟩, ?_⟩
    · show Function.update s.content d.file new f.file = new
      rw [hfile, Function.update_self]
    · show (s.setReq w.req _).reqs w.req = _
      rw [setReq_reqs, if_pos rfl]
    · rw [hp]
      exact .execute hexec

/-- A step of the system is a step of the view. -/
theorem view_step {e : Event} (h : Views φ i old s v) (hsolo : Solo φ i s) (he : Session φ i v.obj.file s e)
    (hs : step s e = some s') : ∃ v', Views φ i old s' v' ∧ View.Step (e.op φ) v v' := by
  cases e with
  | fstream file mode fd =>
    have hcontent := he.content nofun s' hs
    obtain ⟨-, hs⟩ := Option.ite_none_right_eq_some.mp hs
    obtain ⟨m, -, rfl⟩ := Option.map_eq_some_iff.mp hs
    have hi : i ≠ s.nobjs := by
      have := (hsolo.objs i).mp (by rw [h.obj]; exact Option.some_ne_none _)
      omega
    exact ⟨v, h.frame (Function.update_of_ne hi ..) rfl reqs_same hcontent rfl, .idle v⟩
  | close j =>
    obtain ⟨-, hs⟩ := Option.ite_none_right_eq_some.mp hs
    obtain ⟨f, hf, rfl⟩ := Option.map_eq_some_iff.mp hs
    by_cases hj : j = i
    · have hidle := he.used hj
      subst hj
      rw [h.obj, Option.some_inj] at hf
      subst hf
      obtain ⟨f, call, c, rs⟩ := v
      obtain ⟨hclosed, hfile, -⟩ := f.closeFile_spec s.fds
      have hcall := h.call
      cases call with
      | none =>
        refine ⟨⟨(f.closeFile s.fds).1, none, c, rs⟩, ⟨Function.update_self .., ?_, h.results, hidle⟩,
          .close hclosed ?_ ?_ ?_ hfile⟩
        · show s.content (f.closeFile s.fds).1.file = c
          rw [hfile]
          exact h.content
        all_goals
          unfold FileObj.closeFile
          repeat' split
        all_goals rfl
      | some call =>
        obtain ⟨-, w, -, hw, -⟩ := hcall
        rw [hidle] at hw
        cases hw
    · exact ⟨v, h.frame (Function.update_of_ne (Ne.symm hj) ..) rfl reqs_same rfl rfl, .idle v⟩
  | call g j op d b =>
    obtain ⟨⟨-, hg⟩, hs⟩ := Option.ite_none_right_eq_some.mp hs
    rw [Option.isNone_iff_eq_none] at hg
    obtain ⟨f, hf, rfl⟩ := Option.map_eq_some_iff.mp hs
    by_cases hφ : g = φ
    · have hj : j = i := he.only j op d b (by rw [hφ])
      subst hφ hj
      rw [h.obj, Option.some_inj] at hf
      subst hf
      rw [show (Event.call g j op d b).op g = some op from if_pos rfl]
      obtain ⟨f, call, c, rs⟩ := v
      have hcall := h.call
      cases call with
      | none =>
        rcases s.start_refused g j f d b op with ⟨r, hr, heq⟩ | ⟨hopen, hk, heq⟩
        · rw [heq]
          refine ⟨⟨f, none, c, r :: rs⟩, ⟨h.obj, h.content, ?_, hg⟩, .refuse hr⟩
          refine (returned_cons s g _ rfl).trans ?_
          rw [if_pos rfl, h.results]
          rfl
        · rw [heq]
          refine ⟨⟨f, some ⟨op.kind, op.offset f, false, none⟩, c, rs⟩, ⟨h.obj, h.content, h.results, hopen, ?_⟩,
            .submit hopen hk⟩
          refine ⟨{ req := s.nreqs, hasDeadline := 0 ≤ d },
            { obj := j, kind := op.kind, fd := f.fd, offset := op.offset f, file := f.file }, ?_, ?_, rfl, rfl, rfl, rfl,
            rfl, rfl⟩
          · rw [submit_fibers, if_pos rfl]
          · rw [submit_reqs, if_pos rfl]
      | some call =>
        obtain ⟨-, w, -, hw, -⟩ := hcall
        rw [hg] at hw
        cases hw
    · have hj : j ≠ i := fun hj => hφ (he.used hj)
      rw [show (Event.call g j op d b).op φ = none from if_neg hφ]
      refine ⟨v, ?_, .idle v⟩
      rcases s.start_refused g j f d b op with ⟨r, -, heq⟩ | ⟨-, -, heq⟩
      · rw [heq]
        exact h.frame rfl rfl reqs_same rfl ((returned_cons s φ _ rfl).trans (if_neg hφ))
      · rw [heq]
        refine h.frame rfl ?_ ?_ rfl rfl
        · rw [submit_fibers, if_neg (Ne.symm hφ)]
        · intro r q hq _
          refine ⟨q.phase, ?_, rfl⟩
          have := (hsolo.reqs r q hq).1
          rw [submit_reqs, if_neg (by omega)]
          exact hq
  | turn g late =>
    obtain ⟨-, hs⟩ := Option.ite_none_right_eq_some.mp hs
    obtain ⟨w, hw, hs⟩ := Option.bind_eq_some_iff.mp hs
    by_cases hg : g = φ
    · subst hg
      exact h.turn_own hw hs
    · exact ⟨v, h.turn_other hsolo hg hw hs, .idle v⟩
  | poll =>
    obtain ⟨-, hs⟩ := Option.ite_none_right_eq_some.mp hs
    cases hs
    exact ⟨v, h.uvRun, .idle v⟩
  | take r =>
    obtain ⟨q, hq, hs⟩ := Option.bind_eq_some_iff.mp hs
    split at hs
    · rename_i hp
      cases hs
      refine ⟨v, h.frame rfl rfl ?_ rfl rfl, .idle v⟩
      intro x q' hq' _
      rw [setReq_reqs]
      split
      · rename_i hx
        rw [hx, hq, Option.some_inj] at hq'
        subst hq'
        exact ⟨.taken, rfl, by rw [hp]; rfl⟩
      · exact ⟨q'.phase, hq', rfl⟩
    · cases hs
  | exec r k =>
    have hstep := hs
    obtain ⟨q, hq, hs⟩ := Option.bind_eq_some_iff.mp hs
    split at hs
    · rename_i hp
      by_cases hi : q.obj = i
      · exact h.execute_own hsolo hq hi hp hs
      · have hcontent := he.content (fun r' k' q' he' hq' => by cases he'; rw [hq] at hq'; cases hq'; exact hi) s' hstep
        obtain ⟨result, bytes, content, acted, rfl, -⟩ := execute_cases hs
        have hset := h.setReq_other hq hi (.executed result bytes)
        exact ⟨v, hset.frame rfl rfl reqs_same hcontent rfl, .idle v⟩
    · cases hs

theorem View.Step.file {op : Option Op} {v v' : View} (h : View.Step op v v') : v'.obj.file = v.obj.file := by
  cases h with
  | cancel => exact finish_file ..
  | finish => exact finish_file ..
  | close _ _ _ _ hfile => exact hfile
  | _ => rfl

/-- What the steps of the view keep, a run of a session keeps; `P` is what the fiber does. -/
theorem view_run {I : View → Prop} {P : State → Event → Prop} {file : FileId} {es : List Event} (h : Views φ i old s v)
    (hsolo : Solo φ i s) (hfile : v.obj.file = file) (hI : I v)
    (hstep : ∀ s e v v', Views φ i old s v → P s e → I v → View.Step (e.op φ) v v' → I v')
    (hes : Runs.Meets step (fun s e => Session φ i file s e ∧ P s e) s es) (hrun : run s es = some s') :
    ∃ v', Views φ i old s' v' ∧ Solo φ i s' ∧ v'.obj.file = file ∧ I v' := by
  refine Runs.exec_meets (I := fun s => ∃ v, Views φ i old s v ∧ Solo φ i s ∧ v.obj.file = file ∧ I v) ?_
    ⟨v, h, hsolo, hfile, hI⟩ hes hrun
  intro s e s' ⟨v, h, hsolo, hfile, hI⟩ he hs
  subst hfile
  obtain ⟨v', h', hview⟩ := view_step h hsolo he.1 hs
  exact ⟨v', h', solo_step hsolo he.1.used hs, hview.file, hstep s e v v' h he.2 hI hview⟩

theorem views_fstream {s₁ : State} {file : FileId} {mode : String} {fd : Int} (hfresh : Fresh s₁)
    (hs : step s₁ (.fstream file mode fd) = some s) (hφ : s₁.fibers φ = none) :
    ∃ m, parseMode mode = some m ∧ Solo φ s₁.nobjs s ∧
      Views φ s₁.nobjs (s.returned φ) s ⟨.openFile file m fd, none, s.content file, []⟩ := by
  have hfresh' := fresh_step hfresh hs
  obtain ⟨-, hs⟩ := Option.ite_none_right_eq_some.mp hs
  obtain ⟨m, hm, rfl⟩ := Option.map_eq_some_iff.mp hs
  refine ⟨m, hm, ⟨hfresh', ?_, ?_⟩, ⟨Function.update_self .., rfl, rfl, hφ⟩⟩
  · intro g w q _ hq hi
    have := (hfresh.reqs _ q hq).2
    omega
  · intro r q hq hi
    have := (hfresh.reqs _ q hq).2
    omega

/-! ## What is in a session -/

variable {file : FileId}

theorem session_call (φ i : Nat) (file : FileId) (s : State) (op : Op) (d : Int) (b : Bool) :
    Session φ i file s (.call φ i op d b) where
  used _ := rfl
  only j op d b h := by
    cases h
    rfl
  content _ s' hs := by
    obtain ⟨-, hs⟩ := Option.ite_none_right_eq_some.mp hs
    obtain ⟨f, -, rfl⟩ := Option.map_eq_some_iff.mp hs
    rcases s.start_cases φ i f d b op with ⟨v, -, heq⟩ | ⟨-, -, heq⟩
    · rw [heq]
      rfl
    · rw [heq]
      rfl

theorem session_turn (φ i : Nat) (file : FileId) (s : State) (g : Nat) (late : Bool) :
    Session φ i file s (.turn g late) where
  used := trivial
  only := nofun
  content _ s' hs := by
    obtain ⟨-, hs⟩ := Option.ite_none_right_eq_some.mp hs
    obtain ⟨w, -, hs⟩ := Option.bind_eq_some_iff.mp hs
    have hcontent : ∀ (s : State) q b n bytes, (s.finish g q b n bytes).content = s.content := by
      intro s q b n bytes
      obtain ⟨objs, log, acks, heq, -⟩ := s.finish_cases g q b n bytes
      rw [heq]
    cases hq : s.reqs w.req with
    | none => simp [State.turn, uvRun_reqs, hq] at hs
    | some q =>
      rcases turn_cases hq hs with ⟨_, _, -, rfl⟩ | ⟨-, -, rfl⟩ | ⟨-, -, rfl⟩ | ⟨-, rfl⟩
      · rw [hcontent]
        rfl
      · rw [hcontent]
        rfl
      · rfl
      · rfl

theorem session_take (φ i : Nat) (file : FileId) (s : State) (r : Nat) : Session φ i file s (.take r) where
  used := trivial
  only := nofun
  content _ s' hs := by
    obtain ⟨q, -, hs⟩ := Option.bind_eq_some_iff.mp hs
    split at hs
    · cases hs
      rfl
    · cases hs

/-- The fiber's calls on the object, the loop and the pool. -/
def Event.within (φ i : Nat) : Event → Bool
  | .call g j .. => g = φ && j = i
  | .turn .. => true
  | .poll => true
  | .take _ => true
  | .exec .. => true
  | .fstream .. => false
  | .close _ => false

/-- Nothing but the fiber's calls on its object happens. -/
theorem meets_session {es : List Event} (hes : ∀ e ∈ es, e.within φ i = true)
    (hobj : ∀ r q, s.reqs r = some q → q.obj = i) : Runs.Meets step (Session φ i file) s es := by
  induction es generalizing s with
  | nil => trivial
  | cons e es ih =>
    have hadv : ∀ s', Advances s s' → Runs.Meets step (Session φ i file) s' es := by
      intro s' hadv
      refine ih (fun e he => hes e (List.mem_cons_of_mem _ he)) ?_
      intro r q' hq'
      obtain ⟨q, hq, p, rfl, -⟩ := hadv.reqs r q' hq'
      exact hobj r q hq
    have he := hes e List.mem_cons_self
    cases e with
    | call g j op d b =>
      obtain ⟨rfl, rfl⟩ : g = φ ∧ j = i := by simpa [Event.within] using he
      refine ⟨session_call .., ?_⟩
      intro s' hs
      obtain ⟨-, hs⟩ := Option.ite_none_right_eq_some.mp hs
      obtain ⟨f, -, rfl⟩ := Option.map_eq_some_iff.mp hs
      refine ih (fun e he => hes e (List.mem_cons_of_mem _ he)) ?_
      intro r q hq
      rcases s.start_cases g j f d b op with ⟨v, -, heq⟩ | ⟨-, -, heq⟩
      · rw [heq] at hq
        exact hobj r q hq
      · rw [heq, submit_reqs] at hq
        split at hq
        · cases hq
          rfl
        · exact hobj r q hq
    | turn g late =>
      refine ⟨session_turn .., ?_⟩
      intro s' hs
      obtain ⟨-, hs⟩ := Option.ite_none_right_eq_some.mp hs
      obtain ⟨w, -, hs⟩ := Option.bind_eq_some_iff.mp hs
      exact hadv s' (advances_turn hs).1
    | poll =>
      refine ⟨⟨trivial, nofun, ?_⟩, ?_⟩
      · intro _ s' hs
        obtain ⟨-, hs⟩ := Option.ite_none_right_eq_some.mp hs
        cases hs
        rfl
      · intro s' hs
        obtain ⟨-, hs⟩ := Option.ite_none_right_eq_some.mp hs
        cases hs
        exact hadv _ (advances_uvRun s)
    | take r =>
      refine ⟨session_take .., ?_⟩
      intro s' hs
      obtain ⟨q, hq, hs⟩ := Option.bind_eq_some_iff.mp hs
      split at hs
      · rename_i hp
        cases hs
        exact hadv _ (advances_setReq hq fun _ => by rw [hp]; rfl)
      · cases hs
    | exec r k =>
      refine ⟨⟨trivial, nofun, ?_⟩, ?_⟩
      · intro hother s' hs
        obtain ⟨q, hq, -⟩ := Option.bind_eq_some_iff.mp hs
        exact absurd (hobj r q hq) (hother r k q rfl hq)
      · intro s' hs
        obtain ⟨q, hq, hs⟩ := Option.bind_eq_some_iff.mp hs
        split at hs
        · rename_i hp
          exact hadv _ (execute_keeps hq hp hs).1
        · cases hs
    | fstream file mode fd => cases he
    | close j => cases he

end

end CovProcess.File
