/-
  CovProcess.File.Positions — the positions of one file object under the reads, or the
  writes, of any number of fibers (see `CovProcess.File.Model`). A call takes the position
  before it waits and moves it when it returns; the class leaves it to its callers to keep
  other calls on the object out in between.

  Proved: `positions_tile_iff`, for any order of the fibers' turns and of the pool: the
  ranges of the calls that moved data are apart, and are together all the position has
  passed, exactly when each of these finds the position where it took it, as it does when
  calls are made one at a time; and `same_range`, two fibers that read, and two that
  write, the same range.
-/

import CovProcess.Lib.Ranges
import CovProcess.File.Model

namespace CovProcess.File

open Ranges FdTable State

/-! ## What is claimed of the positions -/

/-- The position that reads, or writes, of an object go by. -/
def FileObj.pos (f : FileObj) (reads : Bool) : Nat := if reads then f.readPos else f.writePos

def FileObj.advance (f : FileObj) (reads : Bool) (n : Nat) : FileObj :=
  if reads then { f with readPos := f.readPos + n } else { f with writePos := f.writePos + n }

def Ack.range (a : Ack) : Range := ⟨a.offset.getD 0, a.bytes.length⟩

/-- The ranges of the calls that moved data. -/
def State.ranges (s : State) : List Range := s.acks.map Ack.range

def slice (content : List UInt8) (r : Range) : List UInt8 := (content.drop r.start).take r.len

/-- A string that `read` returned with data in it. -/
def Returned.string : Returned → Option (List UInt8)
  | .data bytes => if bytes = [] then none else some bytes
  | _ => none

/-- A number of bytes that `write` acknowledged. -/
def Returned.count : Returned → Option Nat
  | .int n => if 0 < n then some n.toNat else none
  | _ => none

/-- Reads, or writes, of the first object without a deadline, and what serves them. -/
def Event.only (reads : Bool) : Event → Bool
  | .call _ i (.read _) deadlineMs _ => reads && i = 0 && deadlineMs < 0
  | .call _ i (.write _) deadlineMs _ => !reads && i = 0 && deadlineMs < 0
  | .call _ _ .flush _ _ => false
  | .turn .. => true
  | .poll => true
  | .take _ => true
  | .exec .. => true
  | .fstream .. => false
  | .close _ => false

/-- A call that is about to return data finds the position where it took it. -/
def InPlace (reads : Bool) (s : State) : Event → Prop
  | .turn fiber _ => ∀ w q f result bytes, s.fibers fiber = some w → s.reqs w.req = some q → s.objs q.obj = some f →
      q.phase.complete = .done result bytes → 0 < result → q.offset = some (f.pos reads)
  | _ => True

/-- A call is made when no other is under way. -/
def Serial (s : State) : Event → Prop
  | .call .. => ∀ fiber, s.fibers fiber = none
  | _ => True

/-! ## The invariant -/

def ReqKind.is (reads : Bool) : ReqKind → Bool
  | .read _ => reads
  | .write _ => !reads
  | .fsync => false

/-- The bytes that a request moves the first of. -/
def Request.payload (q : Request) (bytes : List UInt8) : List UInt8 :=
  match q.kind with
  | .write data => data
  | _ => bytes

theorem payload_read {q : Request} {size : Nat} (h : q.kind = .read size) (bytes : List UInt8) :
    q.payload bytes = bytes := by rw [Request.payload, h]

theorem payload_write {q : Request} {data : List UInt8} (h : q.kind = .write data) (bytes : List UInt8) :
    q.payload bytes = data := by rw [Request.payload, h]

/-- A request of one of the calls, `pos` the position now, and what it has read if it is
    past its execution. -/
structure ReqOk (reads : Bool) (content : List UInt8) (pos : Nat) (q : Request) : Prop where
  obj : q.obj = 0
  kind : q.kind.is reads = true
  offset : ∃ o, q.offset = some o ∧ o ≤ pos ∧ ∀ result bytes,
    (q.phase = .executed result bytes ∨ q.phase = .done result bytes) →
      -2147483648 ≤ result ∧ result ≤ (q.payload bytes).length ∧ (reads = true → bytes <+: content.drop o)

/-- The object and the calls on it so far; `content` is what the files hold at the start. -/
structure Moving (reads : Bool) (file : FileId) (content : FileId → List UInt8) (f : FileObj) (s : State) : Prop where
  obj : s.objs 0 = some f
  append : f.append = false
  cursor : Cursor (f.pos reads) s.ranges
  reqs : ∀ r q, s.reqs r = some q → ReqOk reads (content file) (f.pos reads) q
  patient : ∀ fiber w, s.fibers fiber = some w → w.hasDeadline = false ∧ w.deadlineReached = false
  fds : ∀ fd d, s.fds.file fd = some d → d.file = file
  still : reads = true → s.content = content
  slices : reads = true → ∀ a ∈ s.acks, a.bytes = slice (content file) a.range
  strings : reads = true → s.log.filterMap (fun e => e.2.string) = s.acks.map Ack.bytes
  counts : reads = false → s.log.filterMap (fun e => e.2.count) = s.acks.map fun a => a.bytes.length

theorem toInt_le {n : Int} (h : -2147483648 ≤ n) : -2147483648 ≤ toInt n ∧ toInt n ≤ n := by
  unfold toInt
  rw [Int.bmod_def]
  split <;> omega

section

variable {reads : Bool} {file : FileId} {content : FileId → List UInt8} {f : FileObj} {s s' : State}

theorem ReqOk.complete {c : List UInt8} {pos : Nat} {q : Request} (h : ReqOk reads c pos q) :
    ReqOk reads c pos { q with phase := q.phase.complete } := by
  obtain ⟨o, ho, hle, hphase⟩ := h.offset
  refine ⟨h.obj, h.kind, o, ho, hle, ?_⟩
  intro result bytes hr
  cases hq : q.phase with
  | executed n b =>
    obtain ⟨hlow, hlen, hread⟩ := hphase n b (.inl hq)
    have hdone : toInt n = result ∧ b = bytes := by simpa [hq, ReqPhase.complete] using hr
    obtain ⟨rfl, rfl⟩ := hdone
    have hint := toInt_le hlow
    exact ⟨hint.1, le_trans hint.2 hlen, hread⟩
  | done n b => exact hphase result bytes (by simpa [hq, ReqPhase.complete] using hr)
  | queued => simp [hq, ReqPhase.complete] at hr
  | taken => simp [hq, ReqPhase.complete] at hr

theorem Moving.uvRun (h : Moving reads file content f s) : Moving reads file content f s.uvRun :=
  { h with
    reqs := fun r q hq => by
      obtain ⟨q, hq', rfl⟩ := Option.map_eq_some_iff.mp hq
      exact (h.reqs r q hq').complete }

theorem Returned.isEmpty_none {v : Returned} (h : v.isEmpty = true) : v.string = none ∧ v.count = none := by
  cases v with
  | data bytes => exact ⟨if_pos (of_decide_eq_true h), rfl⟩
  | int n =>
    have hn : n ≤ 0 := of_decide_eq_true h
    exact ⟨rfl, if_neg (by omega)⟩
  | null => exact ⟨rfl, rfl⟩
  | bool b => exact ⟨rfl, rfl⟩

theorem Moving.ret (h : Moving reads file content f s) (fiber : Nat) {v : Returned} (hv : v.isEmpty = true) :
    Moving reads file content f (s.ret fiber v) :=
  have ⟨hs, hc⟩ := Returned.isEmpty_none hv
  { h with
    strings := fun hr => (List.filterMap_cons_none (f := fun e : Nat × Returned => e.2.string) hs).trans (h.strings hr)
    counts := fun hr => (List.filterMap_cons_none (f := fun e : Nat × Returned => e.2.count) hc).trans (h.counts hr) }

theorem Moving.setReq (h : Moving reads file content f s) {r : Nat} {q : Request}
    (hq : ReqOk reads (content file) (f.pos reads) q) : Moving reads file content f (s.setReq r q) :=
  { h with
    reqs := fun x p hp => by
      rw [setReq_reqs] at hp
      split at hp
      · cases hp
        exact hq
      · exact h.reqs x p hp }

theorem Moving.submit (h : Moving reads file content f s) (fiber : Nat) {kind : ReqKind} (hk : kind.is reads = true)
    {deadlineMs : Int} (hd : deadlineMs < 0) :
    Moving reads file content f (s.submit fiber 0 f kind (some (f.pos reads)) deadlineMs) :=
  { h with
    reqs := fun r q hq => by
      rw [submit_reqs] at hq
      split at hq
      · cases hq
        exact ⟨rfl, hk, _, rfl, le_rfl, by simp⟩
      · exact h.reqs r q hq
    patient := fun g w hw => by
      rw [submit_fibers] at hw
      split at hw
      · cases hw
        exact ⟨decide_eq_false (by omega), rfl⟩
      · exact h.patient g w hw }

theorem ReqOk.mono {c : List UInt8} {pos pos' : Nat} {q : Request} (h : ReqOk reads c pos q) (hle : pos ≤ pos') :
    ReqOk reads c pos' q := by
  obtain ⟨o, ho, hpos, hphase⟩ := h.offset
  exact ⟨h.obj, h.kind, o, ho, le_trans hpos hle, hphase⟩

theorem pos_advance (f : FileObj) (reads : Bool) (n : Nat) : (f.advance reads n).pos reads = f.pos reads + n := by
  cases reads <;> rfl

/-- A call that returns `v` has moved `bytes` from where it took the position. -/
theorem Moving.acked (h : Moving reads file content f s) (fiber : Nat) {o : Nat} {bytes : List UInt8} {v : Returned}
    (ho : o ≤ f.pos reads) (hb : 0 < bytes.length) (hslice : reads = true → bytes <+: (content file).drop o)
    (hs : reads = true → v.string = some bytes) (hc : reads = false → v.count = some bytes.length) :
    Moving reads file content (f.advance reads bytes.length)
      { (s.setObj 0 (f.advance reads bytes.length)).ret fiber v with acks := ⟨0, some o, reads, bytes⟩ :: s.acks } where
  obj := by
    show (s.setObj 0 _).objs 0 = _
    rw [setObj_objs, if_pos rfl]
  append := by
    have happend := h.append
    cases reads <;> exact happend
  cursor := by
    rw [pos_advance]
    exact h.cursor.advance ho hb
  reqs r q hq := by
    rw [pos_advance]
    exact (h.reqs r q hq).mono (Nat.le_add_right ..)
  patient := h.patient
  fds := h.fds
  still := h.still
  slices hr a ha := by
    cases ha with
    | head => exact List.prefix_iff_eq_take.mp (hslice hr)
    | tail _ ha => exact h.slices hr a ha
  strings hr := by
    rw [List.map_cons, ← h.strings hr]
    exact List.filterMap_cons_some (f := fun e : Nat × Returned => e.2.string) (hs hr)
  counts hr := by
    rw [List.map_cons, ← h.counts hr]
    exact List.filterMap_cons_some (f := fun e : Nat × Returned => e.2.count) (hc hr)

theorem Moving.leave (h : Moving reads file content f s) (fiber : Nat) :
    Moving reads file content f { s with fibers := Function.update s.fibers fiber none, current := none } :=
  { h with
    patient := fun g w hw => by
      have hupd : (if g = fiber then none else s.fibers g) = some w := (Function.update_apply ..).symm.trans hw
      split at hupd
      · cases hupd
      · exact h.patient g w hupd }

theorem Moving.finish_none (h : Moving reads file content f s) (fiber : Nat) {q : Request}
    (hq : ReqOk reads (content file) (f.pos reads) q) {result : Int} (hr : result ≤ 0) (bytes : List UInt8) :
    Moving reads file content f (s.finish fiber q true result bytes) ∧
      (s.finish fiber q true result bytes).acks = s.acks := by
  have hneg : ¬ 0 < result := by omega
  have hkind := hq.kind
  unfold State.finish
  cases hk : q.kind with
  | read size =>
    simp only [hq.obj, h.obj, if_neg hneg]
    split
    · exact ⟨(h.leave fiber).ret fiber rfl, rfl⟩
    · exact ⟨(h.leave fiber).ret fiber rfl, rfl⟩
  | write data =>
    simp only [hq.obj, h.obj, if_neg hneg, Bool.not_true, Bool.false_eq_true, if_false]
    exact ⟨(h.leave fiber).ret fiber (decide_eq_true hr), rfl⟩
  | fsync =>
    rw [hk] at hkind
    cases hkind

theorem Moving.finish_some (h : Moving reads file content f s) (fiber : Nat) {q : Request}
    (hq : ReqOk reads (content file) (f.pos reads) q) {result : Int} {bytes : List UInt8}
    (hdone : q.phase = .done result bytes) (hr : 0 < result) :
    ∃ o b, q.offset = some o ∧ o ≤ f.pos reads ∧ 0 < b.length ∧
      Moving reads file content (f.advance reads b.length) (s.finish fiber q true result bytes) ∧
      (s.finish fiber q true result bytes).acks = ⟨0, some o, reads, b⟩ :: s.acks := by
  obtain ⟨o, ho, hpos, hphase⟩ := hq.offset
  obtain ⟨-, hlen, hread⟩ := hphase result bytes (.inr hdone)
  have hkind := hq.kind
  have hb : ((q.payload bytes).take result.toNat).length = result.toNat := by
    rw [List.length_take]
    omega
  refine ⟨o, (q.payload bytes).take result.toNat, ho, hpos, by omega, ?_⟩
  unfold State.finish
  cases hk : q.kind with
  | read size =>
    rw [hk] at hkind
    have hreads : reads = true := hkind
    rw [payload_read hk] at hb ⊢
    have hacked := (h.leave fiber).acked fiber (v := .data (bytes.take result.toNat)) hpos (by omega)
      (fun hr => (List.take_prefix ..).trans (hread hr))
      (fun _ => if_neg (List.ne_nil_of_length_pos (by omega))) (fun hw => absurd (hreads.symm.trans hw) nofun)
    rw [hb] at hacked ⊢
    subst hreads
    simp only [hq.obj, h.obj, if_pos hr, Bool.not_true, Bool.false_eq_true, if_false, ho]
    exact ⟨hacked, trivial⟩
  | write data =>
    rw [hk] at hkind
    have hreads : reads = false := by simpa [ReqKind.is] using hkind
    rw [payload_write hk] at hb ⊢
    have hacked := (h.leave fiber).acked fiber (v := .int result) hpos (show 0 < (data.take result.toNat).length by omega)
      (fun hr => absurd (hreads.symm.trans hr) nofun) (fun hr => absurd (hreads.symm.trans hr) nofun)
      (fun _ => by rw [hb]; exact if_pos hr)
    rw [hb] at hacked ⊢
    have happend : ¬ f.append = true := ne_true_of_eq_false h.append
    subst hreads
    simp only [hq.obj, h.obj, if_pos hr, Bool.not_true, Bool.false_eq_true, if_false, ho, if_neg happend]
    exact ⟨hacked, trivial⟩
  | fsync =>
    rw [hk] at hkind
    cases hkind

/-- A turn of a fiber: it stays in the wait, or its call is over. -/
theorem Moving.turn_eq (h : Moving reads file content f s) {fiber : Nat} {w : Wait} (late : Bool)
    (hw : s.fibers fiber = some w) {q : Request} (hq : s.reqs w.req = some q) :
    s.turn fiber w late = some (match q.phase.complete with
      | .done result bytes => s.uvRun.finish fiber { q with phase := q.phase.complete } true result bytes
      | _ => { s.uvRun with current := none }) := by
  obtain ⟨hd, hr⟩ := h.patient fiber w hw
  have hq' : s.uvRun.reqs w.req = some { q with phase := q.phase.complete } := by simp [State.uvRun, hq]
  cases hc : q.phase.complete <;> simp [State.turn, hq', hd, hr, hc]

/-- What a turn leads to, and where the position is at the end of a call with data. -/
theorem Moving.turn (h : Moving reads file content f s) {fiber : Nat} {w : Wait} {late : Bool}
    (hw : s.fibers fiber = some w) (hs : s.turn fiber w late = some s') :
    (Moving reads file content f s' ∧ s'.acks = s.acks ∧ InPlace reads s (.turn fiber late)) ∨
      ∃ o b, o ≤ f.pos reads ∧ 0 < b.length ∧ Moving reads file content (f.advance reads b.length) s' ∧
        s'.acks = ⟨0, some o, reads, b⟩ :: s.acks ∧ (InPlace reads s (.turn fiber late) ↔ o = f.pos reads) := by
  cases hq : s.reqs w.req with
  | none => simp [State.turn, State.uvRun, hq] at hs
  | some q =>
    rw [h.turn_eq late hw hq, Option.some_inj] at hs
    have hok := (h.reqs _ _ hq).complete
    have hobj : s.objs q.obj = some f := by
      rw [(h.reqs _ _ hq).obj]
      exact h.obj
    -- the position is looked at only in a turn whose request is done with data
    have hplace : InPlace reads s (.turn fiber late) ↔
        ∀ result bytes, q.phase.complete = .done result bytes → 0 < result → q.offset = some (f.pos reads) := by
      refine ⟨fun hp result bytes => hp w q f result bytes hw hq hobj, ?_⟩
      intro hp w' q' f' result bytes hw' hq' hf'
      rw [hw] at hw'
      cases hw'
      rw [hq] at hq'
      cases hq'
      rw [hobj] at hf'
      cases hf'
      exact hp result bytes
    have hwaits : (∀ result bytes, q.phase.complete ≠ .done result bytes) → s' = { s.uvRun with current := none } →
        Moving reads file content f s' ∧ s'.acks = s.acks ∧ InPlace reads s (.turn fiber late) := by
      intro hne heq
      subst heq
      exact ⟨{ h.uvRun with }, rfl, hplace.mpr fun result bytes hd => absurd hd (hne result bytes)⟩
    split at hs
    · rename_i result bytes hdone
      subst hs
      by_cases hr : 0 < result
      · obtain ⟨o, b, ho, hpos, hb, hmoving, hacks⟩ := h.uvRun.finish_some fiber hok hdone hr
        refine .inr ⟨o, b, hpos, hb, hmoving, hacks, hplace.trans ?_⟩
        rw [show q.offset = some o from ho]
        exact ⟨fun hp => Option.some.inj (hp result bytes hdone hr), fun hp _ _ _ _ => congrArg some hp⟩
      · obtain ⟨hmoving, hacks⟩ := h.uvRun.finish_none fiber hok (Int.not_lt.mp hr) bytes
        refine .inl ⟨hmoving, hacks, hplace.mpr ?_⟩
        intro result' bytes' hd hr'
        rw [hdone] at hd
        cases hd
        exact absurd hr' hr
    · rename_i hne
      exact .inl (hwaits hne hs.symm)

/-- A call of the kind returns nothing, or submits a request at the position. -/
theorem Moving.start (h : Moving reads file content f s) {fiber i : Nat} {op : Op} {deadlineMs : Int}
    {submitted : Bool} (he : (Event.call fiber i op deadlineMs submitted).only reads = true) :
    Moving reads file content f (s.start fiber i f deadlineMs submitted op) ∧
      (s.start fiber i f deadlineMs submitted op).acks = s.acks := by
  rcases s.start_cases fiber i f deadlineMs submitted op with ⟨v, hv, heq⟩ | ⟨-, -, heq⟩
  · rw [heq]
    exact ⟨h.ret fiber hv, rfl⟩
  · rw [heq]
    refine ⟨?_, rfl⟩
    cases op with
    | read size =>
      simp only [Event.only, Bool.and_eq_true, decide_eq_true_eq] at he
      obtain ⟨⟨rfl, rfl⟩, hd⟩ := he
      exact h.submit fiber rfl hd
    | write data =>
      simp only [Event.only, Bool.and_eq_true, decide_eq_true_eq, Bool.not_eq_true'] at he
      obtain ⟨⟨rfl, rfl⟩, hd⟩ := he
      rw [Op.offset, if_neg (ne_true_of_eq_false h.append)]
      exact h.submit fiber rfl hd
    | flush => cases he

theorem ReqOk.execute {c : List UInt8} {pos : Nat} {q : Request} (h : ReqOk reads c pos q) (result : Int)
    (bytes : List UInt8) (hlow : -2147483648 ≤ result) (hlen : result ≤ (q.payload bytes).length)
    (hread : ∀ o, q.offset = some o → reads = true → bytes <+: c.drop o) :
    ReqOk reads c pos { q with phase := .executed result bytes } := by
  obtain ⟨o, ho, hpos, -⟩ := h.offset
  refine ⟨h.obj, h.kind, o, ho, hpos, ?_⟩
  intro result' bytes' hr
  have heq : result = result' ∧ bytes = bytes' := by simpa using hr
  obtain ⟨rfl, rfl⟩ := heq
  exact ⟨hlow, hlen, hread o ho⟩

theorem Moving.execute (h : Moving reads file content f s) {r : Nat} {q : Request} {k : KernelResult}
    (hq : s.reqs r = some q) (hs : s.execute r q k = some s') :
    Moving reads file content f s' ∧ s'.acks = s.acks := by
  have hok := h.reqs r q hq
  unfold State.execute at hs
  split at hs
  · rename_i err
    cases hs
    have herr := err.isLt
    exact ⟨h.setReq (hok.execute _ _ (by omega) (by omega) fun _ _ _ => List.nil_prefix), rfl⟩
  · rename_i n own d hd
    have hfile := h.fds q.fd d hd
    have hkind := hok.kind
    split at hs
    · rename_i size hk
      rw [hk] at hkind
      have hreads : reads = true := hkind
      obtain ⟨⟨-, -, hn, -⟩, hs⟩ := Option.ite_none_right_eq_some.mp hs
      cases hs
      have hlen : (((s.content d.file).drop (q.offset.getD own)).take n).length = n := List.length_take_of_le hn
      refine ⟨{ h.setReq (hok.execute n _ (by omega) ?_ ?_) with }, rfl⟩
      · rw [payload_read hk, hlen]
      · intro o ho hr
        rw [h.still hr, hfile, ho]
        exact List.take_prefix ..
    · rename_i data hk
      rw [hk] at hkind
      have hwrites : reads = false := (Bool.not_eq_true' _).mp hkind
      obtain ⟨⟨-, hn⟩, hs⟩ := Option.ite_none_right_eq_some.mp hs
      cases hs
      have hreq := h.setReq (r := r) (hok.execute n [] (by omega) (by rw [payload_write hk]; omega)
        fun _ _ _ => List.nil_prefix)
      exact ⟨{ hreq with still := fun hr => absurd (hwrites.symm.trans hr) nofun }, rfl⟩
    · rename_i hk
      rw [hk] at hkind
      cases hkind
  · cases hs

/-- One step on the position, and whether it kept the ranges apart. -/
theorem moving_step (h : Moving reads file content f s) {e : Event} (he : e.only reads = true)
    (hs : step s e = some s') :
    (∃ f', Moving reads file content f' s') ∧
      (s'.ranges.Pairwise Apart ↔ s.ranges.Pairwise Apart ∧ InPlace reads s e) := by
  have hquiet : Moving reads file content f s' ∧ s'.acks = s.acks → InPlace reads s e →
      (∃ f', Moving reads file content f' s') ∧
        (s'.ranges.Pairwise Apart ↔ s.ranges.Pairwise Apart ∧ InPlace reads s e) := by
    intro hm hp
    refine ⟨⟨f, hm.1⟩, ?_⟩
    rw [State.ranges, hm.2]
    exact (and_iff_left hp).symm
  cases e with
  | call fiber i op deadlineMs submitted =>
    obtain ⟨-, hs⟩ := Option.ite_none_right_eq_some.mp hs
    obtain ⟨g, hg, rfl⟩ := Option.map_eq_some_iff.mp hs
    have hi : i = 0 := by
      cases op <;> simp_all [Event.only]
    rw [hi, h.obj] at hg
    cases hg
    exact hquiet (h.start he) trivial
  | turn fiber late =>
    obtain ⟨-, hs⟩ := Option.ite_none_right_eq_some.mp hs
    obtain ⟨w, hw, hs⟩ := Option.bind_eq_some_iff.mp hs
    rcases h.turn hw hs with ⟨hm, hacks, hp⟩ | ⟨o, b, ho, hb, hm, hacks, hp⟩
    · exact hquiet ⟨hm, hacks⟩ hp
    · refine ⟨⟨_, hm⟩, ?_⟩
      rw [hp, State.ranges, hacks]
      exact advance_apart_iff h.cursor ho hb
  | poll =>
    obtain ⟨-, hs⟩ := Option.ite_none_right_eq_some.mp hs
    cases hs
    exact hquiet ⟨h.uvRun, rfl⟩ trivial
  | take r =>
    obtain ⟨q, hq, hs⟩ := Option.bind_eq_some_iff.mp hs
    split at hs
    · cases hs
      obtain ⟨o, ho, hpos, -⟩ := (h.reqs r q hq).offset
      have htaken : ReqOk reads (content file) (f.pos reads) { q with phase := .taken } :=
        ⟨(h.reqs r q hq).obj, (h.reqs r q hq).kind, o, ho, hpos, by simp⟩
      exact hquiet ⟨h.setReq htaken, rfl⟩ trivial
    · cases hs
  | exec r k =>
    obtain ⟨q, hq, hs⟩ := Option.bind_eq_some_iff.mp hs
    split at hs
    · exact hquiet (h.execute hq hs) trivial
    · cases hs
  | fstream file mode fd => cases he
  | close i => cases he

theorem moving_fstream {mode : String} {fd : Int} {c : FileId → List UInt8}
    (hmode : ∀ m, parseMode mode = some m → m.append = false)
    (h0 : step { content := c } (.fstream file mode fd) = some s) :
    (∃ f, Moving reads file s.content f s) ∧ s.ranges = [] ∧ ∀ fiber, s.fibers fiber = none := by
  obtain ⟨⟨-, hfd, -⟩, h0⟩ := Option.ite_none_right_eq_some.mp h0
  obtain ⟨m, hm, rfl⟩ := Option.map_eq_some_iff.mp h0
  refine ⟨⟨_, rfl, hmode m hm, ?_, nofun, nofun, ?_, fun _ => rfl, fun _ => nofun, fun _ => rfl,
    fun _ => rfl⟩, rfl, fun _ => rfl⟩
  · cases reads <;> exact .start
  · intro x d hd
    obtain ⟨cl, hd⟩ := file_eq_some.mp hd
    have hput : (if x = fd then some (⟨⟨file, m⟩, true⟩ : Desc OpenDesc) else none) = some ⟨d, cl⟩ :=
      (get_put empty hfd _ x).symm.trans hd
    split at hput
    · cases hput
      rfl
    · cases hput

/-! ## Calls made one at a time -/

/-- At most one fiber waits, and the position is where its call took it. -/
structure Alone (reads : Bool) (s : State) : Prop where
  one : ∀ g g', s.fibers g ≠ none → s.fibers g' ≠ none → g = g'
  placed : ∀ g w q f, s.fibers g = some w → s.reqs w.req = some q → s.objs 0 = some f → q.offset = some (f.pos reads)

theorem Alone.of_same (h : Alone reads s) (hf : s'.fibers = s.fibers) (ho : s'.objs = s.objs)
    (hr : ∀ r q', s'.reqs r = some q' → ∃ q, s.reqs r = some q ∧ q'.offset = q.offset) : Alone reads s' where
  one := by
    rw [hf]
    exact h.one
  placed g w q f hw hq hobj := by
    rw [hf] at hw
    rw [ho] at hobj
    obtain ⟨q', hq', heq⟩ := hr _ _ hq
    rw [heq]
    exact h.placed g w q' f hw hq' hobj

theorem Alone.setReq (h : Alone reads s) {r : Nat} {q q' : Request} (hq : s.reqs r = some q)
    (heq : q'.offset = q.offset) : Alone reads (s.setReq r q') := by
  refine h.of_same rfl rfl ?_
  intro x p hp
  rw [setReq_reqs] at hp
  split at hp
  · rename_i hx
    cases hp
    exact ⟨q, hx ▸ hq, heq⟩
  · exact ⟨p, hp, rfl⟩

theorem Alone.uvRun (h : Alone reads s) : Alone reads s.uvRun := by
  refine h.of_same rfl rfl ?_
  intro r q' hq'
  obtain ⟨q, hq, rfl⟩ := Option.map_eq_some_iff.mp hq'
  exact ⟨q, hq, rfl⟩

/-- The only fiber in the wait has left it. -/
theorem Alone.leave (h : Alone reads s) {fiber : Nat} {w : Wait} (hw : s.fibers fiber = some w)
    (hf : s'.fibers = Function.update s.fibers fiber none) : Alone reads s' := by
  have hnone : ∀ g, s'.fibers g = none := by
    intro g
    rw [hf, Function.update_apply]
    split
    · rfl
    · rename_i hg
      by_contra hne
      exact hg (h.one g fiber hne (by rw [hw]; exact Option.some_ne_none _))
  exact ⟨fun g _ hg => absurd (hnone g) hg, fun g w q f hg => by rw [hnone g] at hg; cases hg⟩

/-- One step, the calls made one at a time. -/
theorem moving_serial (h : Moving reads file content f s) (ha : Alone reads s) {e : Event} (he : e.only reads = true)
    (hser : Serial s e) (hs : step s e = some s') : InPlace reads s e ∧ Alone reads s' := by
  cases e with
  | call fiber i op deadlineMs submitted =>
    obtain ⟨-, hs⟩ := Option.ite_none_right_eq_some.mp hs
    obtain ⟨g, hg, rfl⟩ := Option.map_eq_some_iff.mp hs
    have hi : i = 0 := by
      cases op <;> simp_all [Event.only]
    rw [hi, h.obj] at hg
    cases hg
    refine ⟨trivial, ?_⟩
    rcases s.start_cases fiber i f deadlineMs submitted op with ⟨v, -, heq⟩ | ⟨-, -, heq⟩
    · rw [heq]
      exact ha.of_same rfl rfl fun r q hq => ⟨q, hq, rfl⟩
    · rw [heq]
      have honly : ∀ g, (s.submit fiber i f op.kind (op.offset f) deadlineMs).fibers g ≠ none → g = fiber := by
        intro g hg
        by_contra hne
        rw [submit_fibers, if_neg hne] at hg
        exact hg (hser g)
      refine ⟨fun g g' hg hg' => (honly g hg).trans (honly g' hg').symm, ?_⟩
      intro g w q f' hw hq hobj
      have hgf := honly g (by rw [hw]; exact Option.some_ne_none _)
      rw [submit_fibers, if_pos hgf] at hw
      cases hw
      rw [submit_reqs, if_pos rfl] at hq
      cases hq
      have hobj' : s.objs 0 = some f' := hobj
      rw [h.obj] at hobj'
      cases hobj'
      cases op with
      | read size =>
        simp only [Event.only, Bool.and_eq_true] at he
        obtain ⟨⟨rfl, -⟩, -⟩ := he
        rfl
      | write data =>
        simp only [Event.only, Bool.and_eq_true, Bool.not_eq_true'] at he
        obtain ⟨⟨rfl, -⟩, -⟩ := he
        exact if_neg (ne_true_of_eq_false h.append)
      | flush => cases he
  | turn fiber late =>
    obtain ⟨-, hs⟩ := Option.ite_none_right_eq_some.mp hs
    obtain ⟨w, hw, hs⟩ := Option.bind_eq_some_iff.mp hs
    refine ⟨fun w' q f' _ _ hw' hq hobj _ _ => ha.placed fiber w' q f' hw' hq ?_, ?_⟩
    · rw [← (h.reqs _ _ hq).obj]
      exact hobj
    · cases hq : s.reqs w.req with
      | none => simp [State.turn, State.uvRun, hq] at hs
      | some q =>
        rw [h.turn_eq late hw hq, Option.some_inj] at hs
        split at hs
        · rename_i result bytes _
          obtain ⟨objs, log, acks, heq, -⟩ := s.uvRun.finish_cases fiber { q with phase := q.phase.complete } true result bytes
          rw [heq] at hs
          exact ha.leave hw (by rw [← hs]; rfl)
        · subst hs
          exact ha.uvRun.of_same rfl rfl fun r q hq => ⟨q, hq, rfl⟩
  | poll =>
    obtain ⟨-, hs⟩ := Option.ite_none_right_eq_some.mp hs
    cases hs
    exact ⟨trivial, ha.uvRun⟩
  | take r =>
    obtain ⟨q, hq, hs⟩ := Option.bind_eq_some_iff.mp hs
    split at hs
    · cases hs
      exact ⟨trivial, ha.setReq hq rfl⟩
    · cases hs
  | exec r k =>
    obtain ⟨q, hq, hs⟩ := Option.bind_eq_some_iff.mp hs
    split at hs
    · obtain ⟨result, bytes, c, acted, rfl, -⟩ := execute_cases hs
      have hset : Alone reads (s.setReq r { q with phase := .executed result bytes }) := ha.setReq hq rfl
      exact ⟨trivial, hset.of_same rfl rfl fun r q hq => ⟨q, hq, rfl⟩⟩
    · cases hs
  | fstream file mode fd => cases he
  | close i => cases he

/-- Calls made one at a time find the position where they took it. -/
theorem serial_inPlace (h : Moving reads file content f s) (ha : Alone reads s) {es : List Event}
    (he : ∀ e ∈ es, e.only reads = true) (hrun : run s es = some s') (hser : Runs.Meets step Serial s es) :
    Runs.Meets step (InPlace reads) s es := by
  induction es generalizing s f with
  | nil => trivial
  | cons e es ih =>
    have hone := he e List.mem_cons_self
    obtain ⟨t, ht, hrun⟩ := Runs.exec_cons.mp hrun
    obtain ⟨hplace, ha'⟩ := moving_serial h ha hone hser.1 ht
    obtain ⟨⟨f', h'⟩, -⟩ := moving_step h hone ht
    rw [Runs.meets_cons ht]
    exact ⟨hplace, ih h' ha' (fun e he' => he e (List.mem_cons_of_mem _ he')) hrun (hser.2 t ht)⟩

end

/-- Any number of reads, or of writes, on one object that is not in append mode, without
    deadlines, in any order of the steps: what the calls moved, and when it is apart. -/
theorem positions_tile_iff (reads : Bool) (content : FileId → List UInt8) (file : FileId) (mode : String) (fd : Int)
    (hmode : ∀ m, parseMode mode = some m → m.append = false) (s0 : State)
    (h0 : step { content := content } (.fstream file mode fd) = some s0) (es : List Event)
    (he : ∀ e ∈ es, e.only reads = true) (s : State) (h : run s0 es = some s) :
    ∃ f, s.objs 0 = some f ∧
      (reads = true → s.content = s0.content ∧ s.log.filterMap (fun e => e.2.string) = s.acks.map Ack.bytes ∧
        ∀ a ∈ s.acks, a.bytes = slice (s0.content file) a.range) ∧
      (reads = false → s.log.filterMap (fun e => e.2.count) = s.acks.map fun a => a.range.len) ∧
      (Tiles (f.pos reads) s.ranges ↔ Runs.Meets step (InPlace reads) s0 es) ∧
      (s.ranges.Pairwise Apart ↔ Runs.Meets step (InPlace reads) s0 es) ∧
      (Runs.Meets step Serial s0 es → Runs.Meets step (InPlace reads) s0 es) := by
  obtain ⟨⟨f0, hm0⟩, hr0, hf0⟩ := @moving_fstream reads file s0 mode fd content hmode h0
  obtain ⟨⟨f, hm⟩, hiff⟩ := Runs.exec_meets_iff_on (A := fun e => e.only reads = true)
    (I := fun s => ∃ f, Moving reads file s0.content f s) (Q := fun s => s.ranges.Pairwise Apart)
    (fun s e s' he ⟨f, hm⟩ hs => (moving_step hm he hs).1) (fun s e s' he ⟨f, hm⟩ hs => (moving_step hm he hs).2)
    ⟨f0, hm0⟩ he h
  have hstart : s0.ranges.Pairwise Apart := by
    rw [hr0]
    exact .nil
  have hapart : s.ranges.Pairwise Apart ↔ Runs.Meets step (InPlace reads) s0 es := by
    rw [hiff]
    exact and_iff_right hstart
  have halone : Alone reads s0 :=
    ⟨fun g _ hg => absurd (hf0 g) hg, fun g w q f hw => by rw [hf0 g] at hw; cases hw⟩
  exact ⟨f, hm.obj, fun hr => ⟨hm.still hr, hm.strings hr, hm.slices hr⟩, hm.counts, hm.cursor.tiles_iff.trans hapart,
    hapart, serial_inPlace hm0 halone he h⟩

/-- Two fibers make a call each, the second while the first waits. -/
def overlapping (a b : Op) : List Event :=
  [.call 0 0 a (-1) true, .turn 0 false, .call 1 0 b (-1) true, .turn 1 false, .take 0, .exec 0 (.moves 1 0), .take 1,
    .exec 1 (.moves 1 0), .turn 0 false, .turn 1 false]

theorem positions_tile_iff_one :
    ∃ s0 s f, step { content := fun _ => [104, 105] } (.fstream 0 "r" 3) = some s0 ∧
      run s0 [.call 0 0 (.read 1) (-1) true, .take 0, .exec 0 (.moves 1 0), .turn 0 false] = some s ∧
      s.objs 0 = some f ∧ Tiles (f.pos true) s.ranges := by
  obtain ⟨f, hf, -, -, htiles, -, hserial⟩ := positions_tile_iff true (fun _ => [104, 105]) 0 "r" 3
    (fun m hm => by cases hm; rfl) _ rfl [.call 0 0 (.read 1) (-1) true, .take 0, .exec 0 (.moves 1 0), .turn 0 false]
    (by decide) _ rfl
  refine ⟨_, _, f, rfl, rfl, hf, htiles.mpr (hserial ?_)⟩
  exact ⟨fun _ => rfl, fun _ _ => ⟨trivial, fun _ _ => ⟨trivial, fun _ _ => ⟨trivial, fun _ _ => trivial⟩⟩⟩⟩

/-- Two reads return the same byte of the file, and two writes go to the same place. -/
theorem same_range :
    (∃ s0 s, step { content := fun _ => [104, 105] } (.fstream 0 "r" 3) = some s0 ∧
      (∀ e ∈ overlapping (.read 1) (.read 1), e.only true = true) ∧ run s0 (overlapping (.read 1) (.read 1)) = some s ∧
      s.log = [(1, .data [104]), (0, .data [104])] ∧ s.ranges = [⟨0, 1⟩, ⟨0, 1⟩] ∧ ¬ s.ranges.Pairwise Apart) ∧
    (∃ s0 s, step {} (.fstream 0 "w" 3) = some s0 ∧
      (∀ e ∈ overlapping (.write [1]) (.write [2]), e.only false = true) ∧
      run s0 (overlapping (.write [1]) (.write [2])) = some s ∧ s.log = [(1, .int 1), (0, .int 1)] ∧
      s.content 0 = [2] ∧ s.ranges = [⟨0, 1⟩, ⟨0, 1⟩] ∧ ¬ s.ranges.Pairwise Apart) := by
  have hsame : ¬ ([⟨0, 1⟩, ⟨0, 1⟩] : List Range).Pairwise Apart := by
    intro h
    have hapart : Apart ⟨0, 1⟩ ⟨0, 1⟩ := List.rel_of_pairwise_cons h List.mem_cons_self
    exact Set.disjoint_left.mp hapart (show 0 ∈ Set.Ico 0 1 from ⟨le_rfl, Nat.one_pos⟩) ⟨le_rfl, Nat.one_pos⟩
  exact ⟨⟨_, _, rfl, by decide, rfl, rfl, rfl, hsame⟩, _, _, rfl, by decide, rfl, rfl, rfl, rfl, hsame⟩

end CovProcess.File
