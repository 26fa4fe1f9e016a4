/-
  CovProcess.File.Writes — what `write` reports, and one fiber that writes some data again
  and again until all of it is acknowledged (see `CovProcess.File.View`).

  Proved: `resent_writes`, the file is then as after one write of the data, and the position
  past it, whatever became of each attempt: what a late attempt left in the file is written
  again by later ones at the same place. `write_reports_iff`: for a request that completes in
  time the result is passed on as an `int`, so it is right exactly when it is at least -1 and
  below 2^31. `write_ends`: the ways a write ends there (`Ends`) are all that a run can have.
  `disk_full` is an error that is not reported as -1.
-/

import CovProcess.File.Reads

namespace CovProcess.File

open State Content

/-! ## Writing again -/

def Returned.acked : Returned → Nat
  | .int n => n.toNat
  | .null => 0
  | .data _ => 0
  | .bool _ => 0

def acked : List Returned → Nat
  | [] => 0
  | r :: rs => r.acked + acked rs

theorem acked_cons (r : Returned) (rs : List Returned) : acked (r :: rs) = r.acked + acked rs := rfl

theorem acked_append (rs old : List Returned) : acked (rs ++ old) = acked rs + acked old := by
  induction rs with
  | nil => exact (Nat.zero_add _).symm
  | cons r rs ih => rw [List.cons_append, acked_cons, acked_cons, ih, Nat.add_assoc]

/-- The fiber writes what of the data is not acknowledged; `before` was when it began. -/
def Resends (φ : Nat) (data : List UInt8) (before : Nat) (s : State) (e : Event) : Prop :=
  ∀ op, e.op φ = some op → op = .write (data.drop (acked (s.returned φ) - before))

/-- The first `k` bytes of the data are in the file, from `start` on, and those acknowledged
    are among them. -/
structure Resent (old data : List UInt8) (start k : Nat) (v : View) : Prop where
  append : v.obj.append = false
  pos : v.obj.writePos = start + acked v.results
  inside : acked v.results ≤ k
  content : v.content = pwrite 0 old start (data.take k)
  call : ∀ c, v.call = some c → c.kind = .write (data.drop (acked v.results)) ∧
    c.offset = some v.obj.writePos ∧
    ∀ n b, c.outcome = some (n, b) → acked v.results + n.toNat ≤ k

section

variable {old data : List UInt8} {start k : Nat} {v v' : View} {op : Option Op}

theorem Resent.finish {f : FileObj} {c : Call} {content : List UInt8} {rs : List Returned} {onTime : Bool} {n : Int}
    {b : List UInt8} (h : Resent old data start k ⟨f, some c, content, rs⟩) (hn : acked rs + n.toNat ≤ k) :
    Resent old data start k ⟨(f.finish c.kind onTime n b).1, none, content, (f.finish c.kind onTime n b).2 :: rs⟩ := by
  obtain ⟨hkind, -, -⟩ := h.call c rfl
  have hpos : f.writePos = start + acked rs := h.pos
  have happend : f.append = false := h.append
  have hacked : acked rs ≤ k := h.inside
  rw [hkind, FileObj.finish]
  cases onTime with
  | false =>
    rw [if_neg (Bool.false_ne_true)]
    have hzero : acked (.int (-1) :: rs) = acked rs := by
      rw [acked_cons]
      exact Nat.zero_add _
    refine ⟨happend, ?_, ?_, h.content, of_none⟩
    · rw [hzero]
      exact hpos
    · rw [hzero]
      exact hacked
  | true =>
    rw [if_pos rfl]
    have hsum : acked (.int n :: rs) = n.toNat + acked rs := acked_cons ..
    refine ⟨?_, ?_, ?_, h.content, of_none⟩
    · show (if _ then _ else f : FileObj).append = false
      split
      · exact happend
      · exact happend
    · show (if _ then _ else f : FileObj).writePos = start + acked (.int n :: rs)
      rw [hsum]
      split
      · show f.writePos + n.toNat = _
        omega
      · rename_i hneg
        rw [happend] at hneg
        have : ¬ 0 < n := fun hn => hneg ⟨hn, rfl⟩
        omega
    · show acked (.int n :: rs) ≤ k
      omega

theorem Resent.step (h : Resent old data start k v) (hk : k ≤ data.length) (hlen : data.length < 2147483648)
    (hop : ∀ o, op = some o → o = .write (data.drop (acked v.results))) (hs : View.Step op v v') :
    ∃ k', k' ≤ data.length ∧ Resent old data start k' v' := by
  cases hs with
  | idle => exact ⟨k, hk, h⟩
  | @refuse o f c rs r hr =>
    obtain rfl := hop _ rfl
    obtain rfl : r = .int (-1) := hr
    have hzero : acked (.int (-1) :: rs) = acked rs := by
      rw [acked_cons]
      exact Nat.zero_add _
    refine ⟨k, hk, h.append, ?_, ?_, h.content, of_none⟩
    · rw [hzero]
      exact h.pos
    · rw [hzero]
      exact h.inside
  | @submit o f c rs hopen hkind =>
    obtain rfl := hop _ rfl
    refine ⟨k, hk, h.append, h.pos, h.inside, h.content, ?_⟩
    intro c hc
    cases hc
    have happend : f.append = false := h.append
    refine ⟨rfl, ?_, of_no_outcome⟩
    show (if f.append then none else some f.writePos) = some f.writePos
    rw [happend]
    rfl
  | @execute f kind offset reached c new bytes rs result hexec =>
    obtain ⟨hkind, hoffset, -⟩ := h.call _ rfl
    simp only at hkind hoffset
    subst hkind hoffset
    have happend : f.append = false := h.append
    have hpos : f.writePos = start + acked rs := h.pos
    have hacked : acked rs ≤ k := h.inside
    have hc : c = pwrite 0 old start (data.take k) := h.content
    rcases hexec with ⟨err, rfl, rfl, rfl⟩ | ⟨n, own, rfl, hn, rfl, rfl⟩
    · -- nothing is written
      refine ⟨k, hk, happend, hpos, hacked, hc, ?_⟩
      intro c' hc'
      cases hc'
      refine ⟨rfl, rfl, ?_⟩
      intro n b hout
      obtain ⟨rfl, rfl⟩ := Prod.mk.inj (Option.some.inj hout)
      have hfits : FitsInt (-((err.val : Int) + 1)) := ⟨by omega, by omega⟩
      rw [toInt_eq hfits]
      show acked rs + _ ≤ k
      omega
    · -- some of what was written before is written again, and perhaps more
      rw [List.length_drop] at hn
      have hfits : FitsInt (n : Int) := ⟨by omega, by omega⟩
      refine ⟨max k (acked rs + n), by omega, happend, hpos, Nat.le_trans hacked (Nat.le_max_left ..), ?_, ?_⟩
      · show pwrite 0 c (if f.append then c.length else (some f.writePos).getD own) _ = _
        rw [happend, hc, ← pwrite_resend old data start n hacked hk (by omega), ← hpos]
        rfl
      · intro c' hc'
        cases hc'
        refine ⟨rfl, rfl, ?_⟩
        intro m b hout
        obtain ⟨rfl, rfl⟩ := Prod.mk.inj (Option.some.inj hout)
        rw [toInt_eq hfits]
        exact Nat.le_max_right ..
  | @deadline f kind offset c rs =>
    obtain ⟨hkind, hoffset, -⟩ := h.call _ rfl
    refine ⟨k, hk, h.append, h.pos, h.inside, h.content, ?_⟩
    intro c' hc'
    cases hc'
    exact ⟨hkind, hoffset, of_no_outcome⟩
  | @cancel f kind offset c rs => exact ⟨k, hk, h.finish h.inside⟩
  | @finish f kind offset reached c bytes rs result =>
    obtain ⟨-, -, hout⟩ := h.call _ rfl
    exact ⟨k, hk, h.finish (hout _ _ rfl)⟩
  | @close f f' c rs hclosed hread hwrite happend hfile =>
    exact ⟨k, hk, happend.trans h.append, hwrite.trans h.pos, h.inside, h.content, of_none⟩

end

/-- One fiber uses an object that is not in append mode, and at some time writes what is not
    acknowledged of some data again and again. -/
theorem resent_writes (content : FileId → List UInt8) (φ i : Nat) (es₁ : List Event) (s₁ : State)
    (h₁ : run { content := content } es₁ = some s₁) (hused : Runs.Meets step (UsedBy φ i) { content := content } es₁)
    (f : FileObj) (hf : s₁.objs i = some f) (happend : f.append = false) (hφ : s₁.fibers φ = none) (data : List UInt8)
    (hlen : data.length < 2147483648) (es : List Event)
    (hes : Runs.Meets step (fun s e => Session φ i f.file s e ∧ Resends φ data (acked (s₁.returned φ)) s e) s₁ es)
    (s : State) (h : run s₁ es = some s) :
    ∃ f' m, s.objs i = some f' ∧ acked (s.returned φ) = acked (s₁.returned φ) + m ∧ m ≤ data.length ∧
      f'.writePos = f.writePos + m ∧
      (m = data.length → s.content f.file = pwrite 0 (s₁.content f.file) f.writePos data) := by
  have hsolo : Solo φ i s₁ :=
    Runs.exec_meets (fun s e s' hsolo hu hs => solo_step hsolo hu hs) ⟨fresh_start content, nofun, nofun⟩ hused h₁
  have hviews : Views φ i (s₁.returned φ) s₁ ⟨f, none, s₁.content f.file, []⟩ := ⟨hf, rfl, rfl, hφ⟩
  have hstart : Resent (s₁.content f.file) data f.writePos 0 ⟨f, none, s₁.content f.file, []⟩ :=
    ⟨happend, rfl, Nat.le_refl _, rfl, of_none⟩
  obtain ⟨v, hv, -, hfile, k, hk, hres⟩ := view_run
    (I := fun v => ∃ k, k ≤ data.length ∧ Resent (s₁.content f.file) data f.writePos k v) hviews hsolo rfl
    ⟨0, Nat.zero_le _, hstart⟩ (by
      intro s e v v' hv he hI hstep
      obtain ⟨k, hk, hres⟩ := hI
      refine hres.step hk hlen ?_ hstep
      intro o ho
      have hwrite := he o ho
      rw [hv.results, acked_append, Nat.add_sub_cancel] at hwrite
      exact hwrite) hes h
  refine ⟨v.obj, acked v.results, hv.obj, ?_, Nat.le_trans hres.inside hk, hres.pos, ?_⟩
  · rw [hv.results, acked_append]
    omega
  · intro hall
    have hkeq : k = data.length := Nat.le_antisymm hk (hall ▸ hres.inside)
    have hcontent : s.content f.file = v.content := (congrArg s.content hfile).symm.trans hv.content
    rw [hcontent, hres.content, hkeq, List.take_length]

/-- A write past its deadline that writes all, and the write after it. -/
def lateWrite : List Event :=
  [.call 0 0 (.write [1, 2]) 5 true, .take 0, .turn 0 true, .exec 0 (.moves 2 0), .turn 0 false,
    .call 0 0 (.write [1, 2]) (-1) true, .take 1, .exec 1 (.moves 2 0), .turn 0 false]

theorem resent_writes_late :
    ∃ s₁ s f f', run {} [.fstream 0 "w" 3] = some s₁ ∧ s₁.objs 0 = some f ∧ run s₁ lateWrite = some s ∧
      s.returned 0 = [.int 2, .int (-1)] ∧ s.objs 0 = some f' ∧ f'.writePos = f.writePos + 2 ∧
      s.content 0 = pwrite 0 (s₁.content 0) f.writePos [1, 2] := by
  have hmeets : ∀ s₁, run {} [.fstream 0 "w" 3] = some s₁ →
      Runs.Meets step (fun s e => Session 0 0 0 s e ∧ Resends 0 [1, 2] (acked (s₁.returned 0)) s e) s₁ lateWrite := by
    intro s₁ h₁
    cases h₁
    refine Runs.meets_and (meets_session (by decide) nofun) ?_
    have hcall : ∀ (s : State) d b, acked (s.returned 0) = 0 → Resends 0 [1, 2] 0 s (.call 0 0 (.write [1, 2]) d b) := by
      intro s d b hs op hop
      cases hop
      rw [hs]
      rfl
    refine (Runs.meets_cons rfl).mpr ⟨hcall _ _ _ rfl, ?_⟩
    refine (Runs.meets_cons rfl).mpr ⟨nofun, ?_⟩
    refine (Runs.meets_cons rfl).mpr ⟨nofun, ?_⟩
    refine (Runs.meets_cons rfl).mpr ⟨nofun, ?_⟩
    refine (Runs.meets_cons rfl).mpr ⟨nofun, ?_⟩
    refine (Runs.meets_cons rfl).mpr ⟨hcall _ _ _ rfl, ?_⟩
    refine (Runs.meets_cons rfl).mpr ⟨nofun, ?_⟩
    refine (Runs.meets_cons rfl).mpr ⟨nofun, ?_⟩
    exact (Runs.meets_cons rfl).mpr ⟨nofun, trivial⟩
  obtain ⟨f', m, hf', hm, -, hpos, hcontent⟩ := resent_writes (fun _ => []) 0 0 [.fstream 0 "w" 3] _ rfl
    ⟨trivial, fun _ _ => trivial⟩ _ rfl rfl rfl [1, 2] (by decide) lateWrite (hmeets _ rfl) _ rfl
  obtain rfl : m = 2 := (Nat.zero_add m).symm.trans (hm.symm.trans rfl)
  exact ⟨_, _, _, f', rfl, rfl, rfl, rfl, hf', hpos, hcontent rfl⟩

/-! ## What is reported -/

/-- A write ends in a step, on an object: with the result of a request that completed in
    time, or in another way. -/
inductive Ends (g : Nat) (data : List UInt8) (s : State) : Event → Nat → Option Int → Prop
  | refused {i : Nat} {f : FileObj} {d : Int} {b : Bool} : s.objs i = some f →
      (f.isWritable = false ∨ 4294967295 < data.length ∨ f.fd < 0 ∨ b = false) →
      Ends g data s (.call g i (.write data) d b) i none
  | cancelled {w : Wait} {q : Request} : s.fibers g = some w → s.reqs w.req = some q → q.kind = .write data →
      q.phase = .queued → w.hasDeadline = true → w.deadlineReached = false → Ends g data s (.turn g true) q.obj none
  | late {w : Wait} {q : Request} {late : Bool} {n : Int} {bytes : List UInt8} : s.fibers g = some w →
      s.reqs w.req = some q → q.kind = .write data → q.phase.outcome = some (n, bytes) → w.deadlineReached = true →
      Ends g data s (.turn g late) q.obj none
  | completed {w : Wait} {q : Request} {late : Bool} {n : Int} {bytes : List UInt8} : s.fibers g = some w →
      s.reqs w.req = some q → q.kind = .write data → q.phase = .executed n bytes ∨ q.phase = .done (toInt n) bytes →
      -4095 ≤ n → n ≤ data.length → data.length ≤ 4294967295 → w.deadlineReached = false →
      Ends g data s (.turn g late) q.obj (some n)

/-- The result and the position that `write` is to leave: with `some n`, `n` bytes were
    written in time or `n` is an error. -/
def Reports (f f' : FileObj) (v : Returned) : Option Int → Prop
  | none => v = .int (-1) ∧ f'.writePos = f.writePos
  | some n =>
    if 0 ≤ n then v = .int n ∧ f'.writePos = f.writePos + (if f.append then 0 else n.toNat)
    else v = .int (-1) ∧ f'.writePos = f.writePos

section

variable {g i : Nat} {data : List UInt8} {s s' : State} {e : Event} {o : Option Int} {f : FileObj}

theorem finish_reports (s : State) (g : Nat) {q : Request} (hf : s.objs q.obj = some f) (hk : q.kind = .write data)
    (onTime : Bool) (n : Int) (bytes : List UInt8) :
    (s.finish g q onTime n bytes).objs q.obj = some (f.finish (.write data) onTime n bytes).1 ∧
      (s.finish g q onTime n bytes).log = (g, (f.finish (.write data) onTime n bytes).2) :: s.log := by
  obtain ⟨acks, heq⟩ := s.finish_spec g hf onTime n bytes
  rw [heq, hk]
  exact ⟨Function.update_self .., rfl⟩

/-- A call of `write` is refused, or submits a request. -/
theorem start_write (s : State) (g i : Nat) (f : FileObj) (d : Int) (b : Bool) (data : List UInt8) :
    ((f.isWritable = false ∨ 4294967295 < data.length ∨ f.fd < 0 ∨ b = false) ∧
      s.start g i f d b (.write data) = s.ret g (.int (-1))) ∨
    (¬ (f.isWritable = false ∨ 4294967295 < data.length ∨ f.fd < 0 ∨ b = false) ∧
      s.start g i f d b (.write data) = s.submit g i f (.write data) (if f.append then none else some f.writePos) d) := by
  have hguard : (!f.isWritable || 4294967295 < data.length || f.fd < 0 || !b) = true ↔
      (f.isWritable = false ∨ 4294967295 < data.length ∨ f.fd < 0 ∨ b = false) := by
    simp only [Bool.or_eq_true, Bool.not_eq_true', decide_eq_true_eq, or_assoc]
  by_cases hrefused : (!f.isWritable || 4294967295 < data.length || f.fd < 0 || !b) = true
  · exact .inl ⟨hguard.mp hrefused, if_pos hrefused⟩
  · exact .inr ⟨fun h => hrefused (hguard.mpr h), if_neg hrefused⟩

/-- What a write that ends in the step leaves. -/
theorem Ends.step (h : Ends g data s e i o) (hf : s.objs i = some f) (hs : step s e = some s') :
    ∃ f' v, s'.objs i = some f' ∧ s'.log = (g, v) :: s.log ∧ (o = none → v = .int (-1) ∧ f' = f) ∧
      ∀ n, o = some n → ∃ bytes, f' = (f.finish (.write data) true (toInt n) bytes).1 ∧
        v = (f.finish (.write data) true (toInt n) bytes).2 := by
  cases h with
  | @refused _ f' d b hf' hrefused =>
    rw [hf, Option.some_inj] at hf'
    subst hf'
    obtain ⟨-, hs⟩ := Option.ite_none_right_eq_some.mp hs
    rw [hf, Option.map_some, Option.some_inj] at hs
    rcases start_write s g i f d b data with ⟨-, hret⟩ | ⟨hpassed, -⟩
    · rw [hret] at hs
      subst hs
      exact ⟨f, _, hf, rfl, fun _ => ⟨rfl, rfl⟩, of_none⟩
    · exact absurd hrefused hpassed
  | @cancelled w q hw hq hk hp hdeadline hreached =>
    obtain ⟨-, hs⟩ := Option.ite_none_right_eq_some.mp hs
    obtain ⟨w', hw', hs⟩ := Option.bind_eq_some_iff.mp hs
    rw [hw, Option.some_inj] at hw'
    subst hw'
    have hturn : s.turn g w true = some ((s.uvRun.setReq w.req { q with phase := .done UV_ECANCELED [] }).finish g
        { q with phase := q.phase.complete } false UV_ECANCELED []) := by
      simp only [State.turn, uvRun_reqs, hq, Option.map_some, hp, ReqPhase.complete, hdeadline, hreached, State.uvCancel]
      rfl
    rw [hturn, Option.some_inj] at hs
    subst hs
    obtain ⟨hobj, hlog⟩ := finish_reports (s.uvRun.setReq w.req { q with phase := .done UV_ECANCELED [] }) g
      (q := { q with phase := q.phase.complete }) hf hk false UV_ECANCELED []
    exact ⟨_, _, hobj, hlog, fun _ => ⟨rfl, rfl⟩, of_none⟩
  | @late w q late n bytes hw hq hk hout hreached =>
    obtain ⟨-, hs⟩ := Option.ite_none_right_eq_some.mp hs
    obtain ⟨w', hw', hs⟩ := Option.bind_eq_some_iff.mp hs
    rw [hw, Option.some_inj] at hw'
    subst hw'
    obtain rfl := turn_outcome hq hout hs
    obtain ⟨hobj, hlog⟩ := finish_reports s.uvRun g (q := { q with phase := q.phase.complete }) hf hk
      (!w.deadlineReached) n bytes
    rw [hreached] at hobj hlog
    rw [hreached]
    exact ⟨_, _, hobj, hlog, fun _ => ⟨rfl, rfl⟩, of_none⟩
  | @completed w q late n bytes hw hq hk hphase hlow hhigh hlen hreached =>
    obtain ⟨-, hs⟩ := Option.ite_none_right_eq_some.mp hs
    obtain ⟨w', hw', hs⟩ := Option.bind_eq_some_iff.mp hs
    rw [hw, Option.some_inj] at hw'
    subst hw'
    have hout : q.phase.outcome = some (toInt n, bytes) := by
      rcases hphase with hp | hp
      · rw [hp]
        rfl
      · rw [hp]
        rfl
    obtain rfl := turn_outcome hq hout hs
    obtain ⟨hobj, hlog⟩ := finish_reports s.uvRun g (q := { q with phase := q.phase.complete }) hf hk
      (!w.deadlineReached) (toInt n) bytes
    rw [hreached] at hobj hlog
    rw [hreached]
    refine ⟨_, _, hobj, hlog, fun h => absurd h (Option.some_ne_none _), ?_⟩
    intro m hm
    cases hm
    exact ⟨bytes, rfl, rfl⟩

/-- A result at or above 2^31 that a request can have turns negative. -/
theorem toInt_wraps {n : Int} (hlow : 2147483648 ≤ n) (hhigh : n ≤ 4294967295) : toInt n = n - 4294967296 := by
  unfold toInt
  rw [Int.bmod_def]
  split <;> omega

theorem finish_write_pos (f : FileObj) (data : List UInt8) (n : Int) (bytes : List UInt8) :
    (f.finish (.write data) true n bytes).1.writePos = f.writePos + if f.append then 0 else n.toNat := by
  show (if _ then _ else f : FileObj).writePos = _
  cases happend : f.append with
  | true =>
    rw [if_neg fun h => Bool.noConfusion h.2]
    rfl
  | false =>
    by_cases hn : 0 < n
    · rw [if_pos ⟨hn, rfl⟩]
      rfl
    · rw [if_neg fun h => hn h.1]
      show f.writePos = f.writePos + n.toNat
      omega

/-- The result of a request that completed in time, passed on as an `int`. -/
theorem reports_iff {n : Int} (hlow : -4095 ≤ n) (hhigh : n ≤ 4294967295) (bytes : List UInt8) :
    Reports f (f.finish (.write data) true (toInt n) bytes).1 (f.finish (.write data) true (toInt n) bytes).2 (some n) ↔
      -1 ≤ n ∧ n < 2147483648 := by
  have hv : (f.finish (.write data) true (toInt n) bytes).2 = .int (toInt n) := rfl
  rw [hv, Reports, finish_write_pos]
  by_cases hbig : 2147483648 ≤ n
  · rw [toInt_wraps hbig hhigh, if_pos (by omega)]
    refine iff_of_false ?_ (by omega)
    intro hr
    have := Returned.int.inj hr.1
    omega
  · rw [toInt_eq ⟨by omega, by omega⟩]
    by_cases hn : 0 ≤ n
    · rw [if_pos hn]
      exact iff_of_true ⟨rfl, rfl⟩ ⟨by omega, by omega⟩
    · have hzero : n.toNat = 0 := by omega
      rw [if_neg hn, hzero, ite_self, Nat.add_zero, Returned.int.injEq]
      omega

/-- Whatever the way a write ends, in whatever state. -/
theorem write_reports_iff (h : Ends g data s e i o) (hf : s.objs i = some f) (hs : step s e = some s') :
    (∃ f' v, s'.objs i = some f' ∧ s'.log = (g, v) :: s.log ∧ Reports f f' v o) ↔
      ∀ n, o = some n → -1 ≤ n ∧ n < 2147483648 := by
  obtain ⟨f', v, hf', hlog, hnone, hsome⟩ := h.step hf hs
  have hunique : (∃ f' v, s'.objs i = some f' ∧ s'.log = (g, v) :: s.log ∧ Reports f f' v o) ↔ Reports f f' v o := by
    refine ⟨?_, fun hr => ⟨f', v, hf', hlog, hr⟩⟩
    rintro ⟨f₁, v₁, hf₁, hlog₁, hr⟩
    rw [hf', Option.some_inj] at hf₁
    rw [hlog] at hlog₁
    obtain ⟨-, rfl⟩ := Prod.mk.inj (List.cons.inj hlog₁).1
    rw [hf₁]
    exact hr
  rw [hunique]
  cases o with
  | none =>
    obtain ⟨rfl, rfl⟩ := hnone rfl
    exact iff_of_true ⟨rfl, rfl⟩ of_none
  | some n =>
    obtain ⟨bytes, rfl, rfl⟩ := hsome n rfl
    have hbounds : -4095 ≤ n ∧ n ≤ 4294967295 := by
      cases h with
      | completed _ _ _ _ hlow hhigh hlen _ => exact ⟨hlow, by omega⟩
    rw [reports_iff hbounds.1 hbounds.2]
    exact ⟨fun hn m hm => Option.some.inj hm ▸ hn, fun hall => hall n rfl⟩

def oneWrite (k : KernelResult) : List Event := [.fstream 0 "w" 3, .call 0 0 (.write [7]) 5 true, .take 0, .exec 0 k]

def oneRequest (n : Int) : Request :=
  { obj := 0, kind := .write [7], fd := 3, offset := some 0, phase := .executed n [], file := 0 }

theorem ends_one {s : State} {n : Int} (hw : s.fibers 0 = some ⟨0, true, false⟩) (hq : s.reqs 0 = some (oneRequest n))
    (hlow : -4095 ≤ n) (hhigh : n ≤ 1) : Ends 0 [7] s (.turn 0 false) 0 (some n) :=
  .completed hw hq rfl (.inl rfl) hlow hhigh (by decide) rfl

theorem write_reports_iff_one :
    ∃ s s' f, run {} (oneWrite (.moves 1 0)) = some s ∧ step s (.turn 0 false) = some s' ∧ s.objs 0 = some f ∧
      ∃ f' v, s'.objs 0 = some f' ∧ s'.log = (0, v) :: s.log ∧ Reports f f' v (some 1) := by
  refine ⟨_, _, _, rfl, rfl, rfl, (@write_reports_iff 0 0 [7] _ _ (.turn 0 false) (some 1) _ ?_ rfl rfl).mpr ?_⟩
  · exact ends_one rfl rfl (by decide) (by decide)
  · intro n hn
    cases hn
    exact ⟨by decide, by decide⟩

/-- An error that `write` returns as it is: the disk is full. -/
theorem disk_full :
    ∃ s s' f, run {} (oneWrite (.fails ⟨27, by decide⟩)) = some s ∧ step s (.turn 0 false) = some s' ∧ s.objs 0 = some f ∧
      Ends 0 [7] s (.turn 0 false) 0 (some (-28)) ∧ s'.log = [(0, .int (-28))] ∧
      ¬ ∃ f' v, s'.objs 0 = some f' ∧ s'.log = (0, v) :: s.log ∧ Reports f f' v (some (-28)) := by
  refine ⟨_, _, _, rfl, rfl, rfl, ends_one rfl rfl (by decide) (by decide), rfl, ?_⟩
  rintro ⟨f', v, -, hlog, hr⟩
  obtain ⟨hv, -⟩ := List.cons.inj hlog
  obtain ⟨-, rfl⟩ := Prod.mk.inj hv
  have hbad : Returned.int (-28) = .int (-1) := hr.1
  cases hbad

end

/-! ## All ends of a write -/

/-- What a write's request can hold: its data passed the size check, and its result is an
    error number or counts bytes of it. -/
def WriteOk (q : Request) : Prop :=
  ∀ data, q.kind = .write data → data.length ≤ 4294967295 ∧ ∀ v bytes, q.phase.outcome = some (v, bytes) →
    ∃ n : Int, (q.phase = .executed n bytes ∨ q.phase = .done (toInt n) bytes) ∧ -4095 ≤ n ∧ n ≤ data.length

/-- The event is of a call of the fiber that writes the data. -/
def Writing (g i : Nat) (data : List UInt8) (s : State) : Event → Prop
  | .call g' j op _ _ => g' = g ∧ j = i ∧ op = .write data
  | .turn g' _ => g' = g ∧ ∃ w q, s.fibers g = some w ∧ s.reqs w.req = some q ∧ q.obj = i ∧ q.kind = .write data
  | _ => False

section

variable {g i : Nat} {data : List UInt8} {s s' : State} {e : Event}

theorem WriteOk.complete {q : Request} (h : WriteOk q) : WriteOk { q with phase := q.phase.complete } := by
  intro data hk
  obtain ⟨hlen, hout⟩ := h data hk
  refine ⟨hlen, ?_⟩
  intro v bytes hv
  obtain ⟨n, hphase, hlow, hhigh⟩ := hout v bytes ((outcome_complete q.phase).symm.trans hv)
  refine ⟨n, .inr ?_, hlow, hhigh⟩
  show q.phase.complete = .done (toInt n) bytes
  rcases hphase with hp | hp
  · rw [hp]
    rfl
  · rw [hp]
    rfl

theorem WriteOk.phase {q : Request} (h : WriteOk q) (p : ReqPhase)
    (hp : ∀ data, q.kind = .write data → p.outcome = none ∨ ∃ (n : Int) (bytes : List UInt8),
      (p = .executed n bytes ∨ p = .done (toInt n) bytes) ∧ -4095 ≤ n ∧ n ≤ data.length) :
    WriteOk { q with phase := p } := by
  intro data hk
  refine ⟨(h data hk).1, ?_⟩
  intro v bytes hv
  have hv : p.outcome = some (v, bytes) := hv
  rcases hp data hk with hnone | ⟨n, bytes', hphase, hbounds⟩
  · rw [hnone] at hv
    cases hv
  · have hout : p.outcome = some (toInt n, bytes') := by
      rcases hphase with rfl | rfl
      · rfl
      · rfl
    rw [hout] at hv
    obtain ⟨-, rfl⟩ := Prod.mk.inj (Option.some.inj hv)
    exact ⟨n, hphase, hbounds⟩

theorem writeOk_setReq (h : ∀ r q, s.reqs r = some q → WriteOk q) (r : Nat) {q : Request} (hq : WriteOk q) (x : Nat)
    (q' : Request) (hq' : (s.setReq r q).reqs x = some q') : WriteOk q' := by
  rw [setReq_reqs] at hq'
  split at hq'
  · cases hq'
    exact hq
  · exact h x q' hq'

theorem writeOk_uvRun (h : ∀ r q, s.reqs r = some q → WriteOk q) (x : Nat) (q' : Request)
    (hq' : s.uvRun.reqs x = some q') : WriteOk q' := by
  rw [uvRun_reqs] at hq'
  obtain ⟨q, hq, rfl⟩ := Option.map_eq_some_iff.mp hq'
  exact (h x q hq).complete

theorem execute_bounds {r : Nat} {q : Request} {k : KernelResult} (h : s.execute r q k = some s') :
    ∃ result bytes content acted, s' = { s.setReq r { q with phase := .executed result bytes } with
        content := content, acted := acted } ∧
      ∀ data, q.kind = .write data → -4095 ≤ result ∧ result ≤ data.length := by
  cases hd : s.fds.file q.fd with
  | some d =>
    obtain ⟨result, bytes, new, acted, rfl, hexec⟩ := execute_spec hd h
    refine ⟨result, bytes, _, acted, rfl, ?_⟩
    intro data hk
    rw [hk] at hexec
    rcases hexec with ⟨err, rfl, -, -⟩ | ⟨n, own, rfl, hn, -, -⟩
    · have := err.isLt
      omega
    · omega
  | none =>
    unfold State.execute at h
    rw [hd] at h
    cases k with
    | fails err =>
      cases h
      refine ⟨_, _, s.content, s.acted, rfl, ?_⟩
      intro data _
      have := err.isLt
      omega
    | moves n own => cases h

theorem writeOk_submit (h : ∀ r q, s.reqs r = some q → WriteOk q) {f : FileObj} {kind : ReqKind}
    (hlen : ∀ data, kind = .write data → data.length ≤ 4294967295) (offset : Option Nat) (d : Int) (x : Nat) (q' : Request)
    (hq' : (s.submit g i f kind offset d).reqs x = some q') : WriteOk q' := by
  rw [submit_reqs] at hq'
  split at hq'
  · cases hq'
    intro data hk
    exact ⟨hlen data hk, of_no_outcome⟩
  · exact h x q' hq'

theorem writeOk_start (h : ∀ r q, s.reqs r = some q → WriteOk q) {f : FileObj} {d : Int} {b : Bool} (op : Op) (x : Nat)
    (q' : Request) (hq' : (s.start g i f d b op).reqs x = some q') : WriteOk q' := by
  rcases s.start_refused g i f d b op with ⟨v, -, heq⟩ | ⟨-, -, heq⟩
  · rw [heq] at hq'
    exact h x q' hq'
  · rw [heq] at hq'
    refine writeOk_submit h ?_ _ d x q' hq'
    intro data hk
    cases op with
    | write own =>
      cases hk
      rcases start_write s g i f d b data with ⟨-, hret⟩ | ⟨hpassed, -⟩
      · have hn : s.nreqs = s.nreqs + 1 := congrArg State.nreqs (hret.symm.trans heq)
        omega
      · simp only [not_or, Nat.not_lt] at hpassed
        exact hpassed.2.1
    | read size => cases hk
    | flush => cases hk

theorem writeOk_turn (h : ∀ r q, s.reqs r = some q → WriteOk q) (hfresh : Fresh s) {w : Wait} {late : Bool}
    (hw : s.fibers g = some w) (hs : s.turn g w late = some s') (x : Nat) (q' : Request) (hq' : s'.reqs x = some q') :
    WriteOk q' := by
  obtain ⟨q, hq⟩ := Option.ne_none_iff_exists'.mp (hfresh.waits g w hw)
  have hrun := writeOk_uvRun h
  rcases turn_cases hq hs with ⟨v, bytes, -, rfl⟩ | ⟨-, -, rfl⟩ | ⟨-, -, rfl⟩ | ⟨-, rfl⟩
  · obtain ⟨objs, log, acks, heq, -⟩ := s.uvRun.finish_cases g { q with phase := q.phase.complete } (!w.deadlineReached) v bytes
    rw [heq] at hq'
    exact hrun x q' hq'
  · obtain ⟨objs, log, acks, heq, -⟩ := (s.uvRun.setReq w.req { q with phase := .done UV_ECANCELED [] }).finish_cases g
      { q with phase := q.phase.complete } false UV_ECANCELED []
    rw [heq] at hq'
    refine writeOk_setReq hrun w.req ((h w.req q hq).phase _ ?_) x q' hq'
    intro data _
    refine .inr ⟨UV_ECANCELED, [], .inr rfl, by decide, ?_⟩
    show (-125 : Int) ≤ _
    omega
  · exact hrun x q' hq'
  · exact hrun x q' hq'

theorem writeOk_step (h : ∀ r q, s.reqs r = some q → WriteOk q) (hfresh : Fresh s) (hs : step s e = some s') (x : Nat)
    (q' : Request) (hq' : s'.reqs x = some q') : WriteOk q' := by
  cases e with
  | fstream file mode fd =>
    obtain ⟨-, hs⟩ := Option.ite_none_right_eq_some.mp hs
    obtain ⟨m, -, rfl⟩ := Option.map_eq_some_iff.mp hs
    exact h x q' hq'
  | close j =>
    obtain ⟨-, hs⟩ := Option.ite_none_right_eq_some.mp hs
    obtain ⟨f, -, rfl⟩ := Option.map_eq_some_iff.mp hs
    exact h x q' hq'
  | call fiber j op d b =>
    obtain ⟨-, hs⟩ := Option.ite_none_right_eq_some.mp hs
    obtain ⟨f, -, rfl⟩ := Option.map_eq_some_iff.mp hs
    exact writeOk_start h op x q' hq'
  | turn fiber late =>
    obtain ⟨-, hs⟩ := Option.ite_none_right_eq_some.mp hs
    obtain ⟨w, hw, hs⟩ := Option.bind_eq_some_iff.mp hs
    exact writeOk_turn h hfresh hw hs x q' hq'
  | poll =>
    obtain ⟨-, hs⟩ := Option.ite_none_right_eq_some.mp hs
    cases hs
    exact writeOk_uvRun h x q' hq'
  | take r =>
    obtain ⟨q, hq, hs⟩ := Option.bind_eq_some_iff.mp hs
    split at hs
    · cases hs
      exact writeOk_setReq h r ((h r q hq).phase .taken fun _ _ => .inl rfl) x q' hq'
    · cases hs
  | exec r k =>
    obtain ⟨q, hq, hs⟩ := Option.bind_eq_some_iff.mp hs
    split at hs
    · obtain ⟨n, bytes, content, acted, rfl, hn⟩ := execute_bounds hs
      refine writeOk_setReq h r ((h r q hq).phase (.executed n bytes) ?_) x q' hq'
      intro data hk
      exact .inr ⟨n, bytes, .inl rfl, hn data hk⟩
    · cases hs

theorem writeOk_run {content : FileId → List UInt8} {es : List Event} (h : run { content := content } es = some s) :
    Fresh s ∧ ∀ r q, s.reqs r = some q → WriteOk q := by
  refine Runs.exec_invariant (I := fun s => Fresh s ∧ ∀ r q, s.reqs r = some q → WriteOk q) ?_
    ⟨fresh_start content, nofun⟩ h
  intro s e s' hI hs
  exact ⟨fresh_step hI.1 hs, writeOk_step hI.2 hI.1 hs⟩

/-- In every state of every run, a step in which a write returns is one of its ends. -/
theorem write_ends {content : FileId → List UInt8} {es : List Event} (h : run { content := content } es = some s)
    (hw : Writing g i data s e) (hs : step s e = some s') (hret : s'.log ≠ s.log) : ∃ o, Ends g data s e i o := by
  obtain ⟨-, hok⟩ := writeOk_run h
  cases e with
  | call fiber j op d b =>
    obtain ⟨rfl, rfl, rfl⟩ := hw
    obtain ⟨-, hs⟩ := Option.ite_none_right_eq_some.mp hs
    obtain ⟨f, hf, rfl⟩ := Option.map_eq_some_iff.mp hs
    rcases start_write s fiber j f d b data with ⟨hrefused, -⟩ | ⟨-, heq⟩
    · exact ⟨none, .refused hf hrefused⟩
    · rw [heq] at hret
      exact absurd rfl hret
  | turn fiber late =>
    obtain ⟨rfl, w, q, hfiber, hq, rfl, hk⟩ := hw
    obtain ⟨-, hs⟩ := Option.ite_none_right_eq_some.mp hs
    obtain ⟨w', hw', hs⟩ := Option.bind_eq_some_iff.mp hs
    rw [hfiber, Option.some_inj] at hw'
    subst hw'
    rcases turn_cases hq hs with ⟨v, bytes, hout, -⟩ | ⟨hp, ⟨hdeadline, hreached, rfl⟩, -⟩ | ⟨-, -, rfl⟩ | ⟨-, rfl⟩
    · cases hreached : w.deadlineReached with
      | true => exact ⟨none, .late hfiber hq hk hout hreached⟩
      | false =>
        obtain ⟨hlen, hresult⟩ := hok w.req q hq data hk
        obtain ⟨n, hphase, hlow, hhigh⟩ := hresult v bytes hout
        exact ⟨some n, .completed hfiber hq hk hphase hlow hhigh hlen hreached⟩
    · exact ⟨none, .cancelled hfiber hq hk hp hdeadline hreached⟩
    · exact absurd rfl hret
    · exact absurd rfl hret
  | fstream file mode fd => cases hw
  | close j => cases hw
  | poll => cases hw
  | take r => cases hw
  | exec r k => cases hw

end

end CovProcess.File
