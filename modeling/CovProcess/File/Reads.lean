/-
  CovProcess.File.Reads — one fiber reads a file in sequence, with deadlines (see
  `CovProcess.File.View`). A read takes the position before it waits and moves it only when
  it returns data, so one that is past its deadline, cancelled or not, is made again from
  the same place.

  Proved: `reads_prefix`, what the reads returned so far is the part of the file before the
  position, whatever became of each request.
-/

import CovProcess.File.View

namespace CovProcess.File

open State

/-- A value of a C `int`. -/
def FitsInt (n : Int) : Prop := -2147483648 ≤ n ∧ n < 2147483648

theorem toInt_eq {n : Int} (h : FitsInt n) : toInt n = n := by
  have := h.1
  have := h.2
  unfold toInt
  rw [Int.bmod_def]
  split <;> omega

def Returned.bytes : Returned → List UInt8
  | .data bytes => bytes
  | .null => []
  | .int _ => []
  | .bool _ => []

def Reads (φ : Nat) (e : Event) : Prop := ∀ op, e.op φ = some op → ∃ size, op = .read size ∧ FitsInt size

/-! ## The invariant -/

/-- `c` is read up to the position, and the read under way is from there. -/
structure Sequential (c : List UInt8) (v : View) : Prop where
  content : v.content = c
  bound : v.obj.readPos ≤ c.length
  strings : v.results.reverse.flatMap Returned.bytes = c.take v.obj.readPos
  call : ∀ k, v.call = some k → ∃ size, k.kind = .read size ∧ size < 2147483648 ∧ k.offset = some v.obj.readPos ∧
    ∀ n b, k.outcome = some (n, b) →
      n < 0 ∨ (n = b.length ∧ b <+: c.drop v.obj.readPos ∧ (b = [] → c.length ≤ v.obj.readPos))

section

variable {c : List UInt8} {v v' : View} {op : Option Op}

/-- A result without data. -/
theorem flatMap_bytes_cons {r : Returned} (hr : r.bytes = []) (rs : List Returned) :
    (r :: rs).reverse.flatMap Returned.bytes = rs.reverse.flatMap Returned.bytes := by
  rw [List.reverse_cons, List.flatMap_append, List.flatMap_singleton, hr, List.append_nil]

/-- What the read of a view with an outcome returns: data from the position, or nothing. -/
theorem finish_read {f : FileObj} {size : Nat} {onTime : Bool} {n : Int} {b : List UInt8}
    (hout : n < 0 ∨ (n = b.length ∧ b <+: c.drop f.readPos ∧ (b = [] → c.length ≤ f.readPos))) :
    (f.finish (.read size) onTime n b = ({ f with readPos := f.readPos + b.length }, .data b) ∧ b ≠ [] ∧
        b <+: c.drop f.readPos) ∨
      (f.finish (.read size) onTime n b = (f, .data []) ∧ c.length ≤ f.readPos) ∨
      f.finish (.read size) onTime n b = (f, .null) := by
  rcases hout with hneg | ⟨rfl, hprefix, hempty⟩
  · refine .inr (.inr ?_)
    rw [FileObj.finish, if_neg (by omega), if_neg (by omega)]
  · by_cases hb : b = []
    · refine .inr (.inl ⟨?_, hempty hb⟩)
      rw [hb]
      rfl
    · have hpos : 0 < (b.length : Int) := by
        have := List.length_pos_iff.mpr hb
        omega
      cases onTime with
      | false =>
        refine .inr (.inr ?_)
        rw [FileObj.finish, if_pos hpos]
        rfl
      | true =>
        refine .inl ⟨?_, hb, hprefix⟩
        rw [FileObj.finish, if_pos hpos, Int.toNat_natCast, List.take_length]
        rfl

theorem Sequential.finish {f : FileObj} {k : Call} {rs : List Returned} {onTime : Bool} {n : Int} {b : List UInt8}
    (h : Sequential c ⟨f, some k, c, rs⟩) {size : Nat} (hk : k.kind = .read size)
    (hout : n < 0 ∨ (n = b.length ∧ b <+: c.drop f.readPos ∧ (b = [] → c.length ≤ f.readPos))) :
    Sequential c ⟨(f.finish k.kind onTime n b).1, none, c, (f.finish k.kind onTime n b).2 :: rs⟩ := by
  have hbound : f.readPos ≤ c.length := h.bound
  have hstrings : rs.reverse.flatMap Returned.bytes = c.take f.readPos := h.strings
  rw [hk]
  rcases @finish_read c f size onTime _ _ hout with ⟨heq, -, hprefix⟩ | ⟨heq, -⟩ | heq
  · rw [heq]
    have hlen := hprefix.length_le
    rw [List.length_drop] at hlen
    refine ⟨rfl, ?_, ?_, of_none⟩
    · show f.readPos + b.length ≤ c.length
      omega
    · show (_ :: rs).reverse.flatMap Returned.bytes = c.take (f.readPos + b.length)
      rw [List.reverse_cons, List.flatMap_append, hstrings, List.flatMap_singleton, List.take_add]
      exact congrArg _ (List.prefix_iff_eq_take.mp hprefix)
  · rw [heq]
    exact ⟨rfl, hbound, (flatMap_bytes_cons rfl rs).trans hstrings, of_none⟩
  · rw [heq]
    exact ⟨rfl, hbound, (flatMap_bytes_cons rfl rs).trans hstrings, of_none⟩

theorem Sequential.step (h : Sequential c v) (hop : ∀ o, op = some o → ∃ size, o = .read size ∧ FitsInt size)
    (hs : View.Step op v v') : Sequential c v' := by
  cases hs with
  | idle => exact h
  | @refuse o f c' rs r hr =>
    obtain ⟨size, rfl, -⟩ := hop _ rfl
    have hbytes : r.bytes = [] := by
      rcases hr with rfl | ⟨-, rfl⟩
      · rfl
      · rfl
    exact ⟨h.content, h.bound, (flatMap_bytes_cons hbytes rs).trans h.strings, of_none⟩
  | @submit o f c' rs hopen hk =>
    obtain ⟨size, rfl, hsize⟩ := hop _ rfl
    refine ⟨h.content, h.bound, h.strings, ?_⟩
    intro k hk
    cases hk
    have := hsize.2
    exact ⟨size.toNat, rfl, by omega, rfl, of_no_outcome⟩
  | @execute f kind offset reached old new bytes rs result hexec =>
    obtain ⟨size, hkind, hsize, hoffset, -⟩ := h.call _ rfl
    simp only at hkind hoffset
    subst hkind hoffset
    have hold : old = c := h.content
    subst hold
    rcases hexec with ⟨err, rfl, rfl, rfl⟩ | ⟨n, own, rfl, hn, hlen, hzero, rfl, rfl⟩
    · refine ⟨rfl, h.bound, h.strings, ?_⟩
      intro k hk
      cases hk
      refine ⟨size, rfl, hsize, rfl, ?_⟩
      intro n b hout
      obtain ⟨rfl, rfl⟩ := Prod.mk.inj (Option.some.inj hout)
      have hfits : FitsInt (-((err.val : Int) + 1)) := ⟨by omega, by omega⟩
      rw [toInt_eq hfits]
      exact .inl (by omega)
    · refine ⟨rfl, h.bound, h.strings, ?_⟩
      intro k hk
      cases hk
      refine ⟨size, rfl, hsize, rfl, ?_⟩
      intro m b hout
      obtain ⟨rfl, rfl⟩ := Prod.mk.inj (Option.some.inj hout)
      have hfits : FitsInt (n : Int) := ⟨by omega, by omega⟩
      rw [toInt_eq hfits]
      have hb : ((new.drop ((some f.readPos).getD own)).take n).length = n := by
        rw [List.length_take]
        omega
      refine .inr ⟨by rw [hb], List.take_prefix .., ?_⟩
      intro hnil
      rw [hnil] at hb
      have hdrop := hzero hb.symm
      exact List.drop_eq_nil_iff.mp hdrop
  | @deadline f kind offset c' rs =>
    obtain ⟨size, hkind, hsize, hoffset, -⟩ := h.call _ rfl
    refine ⟨h.content, h.bound, h.strings, ?_⟩
    intro k hk
    cases hk
    exact ⟨size, hkind, hsize, hoffset, of_no_outcome⟩
  | @cancel f kind offset c' rs =>
    obtain ⟨size, hkind, -⟩ := h.call _ rfl
    have hold : c' = c := h.content
    subst hold
    exact h.finish hkind (.inl (by decide))
  | @finish f kind offset reached c' bytes rs result =>
    obtain ⟨size, hkind, -, -, hout⟩ := h.call _ rfl
    have hold : c' = c := h.content
    subst hold
    exact h.finish hkind (hout _ _ rfl)
  | @close f f' c' rs hclosed hread hwrite happend hfile =>
    have hread' : f'.readPos = f.readPos := hread
    refine ⟨h.content, ?_, ?_, of_none⟩
    · show f'.readPos ≤ c.length
      rw [hread']
      exact h.bound
    · show rs.reverse.flatMap Returned.bytes = c.take f'.readPos
      rw [hread']
      exact h.strings

/-- What a step returns, and where the position is then. -/
theorem Sequential.result (h : Sequential c v) (hop : ∀ o, op = some o → ∃ size, o = .read size ∧ FitsInt size)
    (hs : View.Step op v v') {r : Returned} (hr : v'.results = r :: v.results) :
    (r = .null → v'.obj.readPos = v.obj.readPos) ∧
      (r = .data [] → (∃ size ≤ 0, op = some (.read size)) ∨ c.length ≤ v'.obj.readPos) := by
  have hend : ∀ {f : FileObj} {k : Call} {rs : List Returned} {onTime : Bool} {n : Int} {b : List UInt8} {size : Nat},
      k.kind = .read size → n < 0 ∨ (n = b.length ∧ b <+: c.drop f.readPos ∧ (b = [] → c.length ≤ f.readPos)) →
      (f.finish k.kind onTime n b).2 :: rs = r :: rs →
      (r = .null → (f.finish k.kind onTime n b).1.readPos = f.readPos) ∧
        (r = .data [] → c.length ≤ (f.finish k.kind onTime n b).1.readPos) := by
    intro f k rs onTime n b size hk hout hres
    obtain ⟨rfl, -⟩ := List.cons.inj hres
    rw [hk]
    rcases @finish_read c f size onTime _ _ hout with ⟨heq, hb, -⟩ | ⟨heq, hle⟩ | heq
    · rw [heq]
      exact ⟨nofun, fun hnil => absurd (Returned.data.inj hnil) hb⟩
    · rw [heq]
      exact ⟨nofun, fun _ => hle⟩
    · rw [heq]
      exact ⟨fun _ => rfl, nofun⟩
  have hne : ∀ rs : List Returned, rs ≠ r :: rs := fun rs hrs => by simpa using congrArg List.length hrs
  cases hs with
  | @refuse o f c' rs r' hr' =>
    obtain ⟨rfl, -⟩ := List.cons.inj hr
    obtain ⟨size, rfl, -⟩ := hop _ rfl
    refine ⟨fun _ => rfl, ?_⟩
    intro hnil
    rcases hr' with rfl | ⟨hsize, rfl⟩
    · cases hnil
    · exact .inl ⟨size, hsize, rfl⟩
  | @cancel f kind offset c' rs =>
    obtain ⟨size, hkind, -⟩ := h.call _ rfl
    obtain ⟨hnull, hempty⟩ := hend (k := ⟨kind, offset, false, none⟩) hkind (.inl (by decide)) hr
    exact ⟨hnull, fun hd => .inr (hempty hd)⟩
  | @finish f kind offset reached c' bytes rs result =>
    obtain ⟨size, hkind, -, -, hout⟩ := h.call _ rfl
    obtain ⟨hnull, hempty⟩ := hend (k := ⟨kind, offset, reached, none⟩) hkind (hout _ _ rfl) hr
    exact ⟨hnull, fun hd => .inr (hempty hd)⟩
  | _ => exact absurd hr (hne _)

end

/-- Any reads by one fiber of a file it opened, in any state of the system, while no other
    changes the file. -/
theorem reads_prefix (content : FileId → List UInt8) (es₁ : List Event) (s₁ : State)
    (h₁ : run { content := content } es₁ = some s₁) (file : FileId) (mode : String) (fd : Int) (s₀ : State)
    (h₀ : step s₁ (.fstream file mode fd) = some s₀) (φ : Nat) (hφ : s₁.fibers φ = none) (es : List Event)
    (hes : Runs.Meets step (fun s e => Session φ s₁.nobjs file s e ∧ Reads φ e) s₀ es) (s : State)
    (h : run s₀ es = some s) :
    ∃ f results, s.objs s₁.nobjs = some f ∧ s.returned φ = results ++ s₀.returned φ ∧
      s.content file = s₀.content file ∧ f.readPos ≤ (s₀.content file).length ∧
      results.reverse.flatMap Returned.bytes = (s₀.content file).take f.readPos ∧
      ∀ e s' r, Session φ s₁.nobjs file s e → Reads φ e → step s e = some s' → s'.returned φ = r :: s.returned φ →
        ∃ f', s'.objs s₁.nobjs = some f' ∧ (r = .null → f'.readPos = f.readPos) ∧
          (r = .data [] → (∃ size ≤ 0, e.op φ = some (.read size)) ∨ (s₀.content file).length ≤ f'.readPos) := by
  have hfresh : Fresh s₁ := Runs.exec_invariant (fun _ _ _ => fresh_step) (fresh_start content) h₁
  obtain ⟨m, -, hsolo, hviews⟩ := views_fstream hfresh h₀ hφ
  have hstart : Sequential (s₀.content file) ⟨.openFile file m fd, none, s₀.content file, []⟩ :=
    ⟨rfl, Nat.zero_le _, rfl, of_none⟩
  obtain ⟨v, hv, hsolo', hfile, hseq⟩ := view_run hviews hsolo rfl hstart
    (fun s e v v' _ he hI hstep => hI.step he hstep) hes h
  have hfile : v.obj.file = file := hfile
  refine ⟨v.obj, v.results, hv.obj, hv.results, ?_, hseq.bound, hseq.strings, ?_⟩
  · exact (congrArg s.content hfile).symm.trans (hv.content.trans hseq.content)
  · intro e s' r he hreads hs hr
    rw [← hfile] at he
    obtain ⟨v', hv', hstep⟩ := view_step hv hsolo' he hs
    have hres : v'.results = r :: v.results := by
      rw [hv'.results, hv.results, ← List.cons_append] at hr
      exact List.append_cancel_right hr
    exact ⟨v'.obj, hv'.obj, hseq.result hreads hstep hres⟩

/-- A read past its deadline, and the read after it. -/
def lateRead : List Event :=
  [.call 0 0 (.read 1) 5 true, .take 0, .turn 0 true, .exec 0 (.moves 1 0), .turn 0 false, .call 0 0 (.read 9) (-1) true,
    .take 1, .exec 1 (.moves 2 0), .turn 0 false]

theorem reads_prefix_late :
    ∃ s₀ s, step { content := fun _ => [104, 105] } (.fstream 0 "r" 3) = some s₀ ∧ run s₀ lateRead = some s ∧
      s.returned 0 = [.data [104, 105], .null] ∧
      ∃ f results, s.objs 0 = some f ∧ s.returned 0 = results ++ s₀.returned 0 ∧
        results.reverse.flatMap Returned.bytes = (s₀.content 0).take f.readPos := by
  have hreads : ∀ e ∈ lateRead, Reads 0 e := by
    have hread : ∀ size d b, FitsInt size → Reads 0 (.call 0 0 (.read size) d b) := by
      intro size d b hsize op hop
      cases hop
      exact ⟨size, rfl, hsize⟩
    have hone : FitsInt 1 := by unfold FitsInt; decide
    have hnine : FitsInt 9 := by unfold FitsInt; decide
    unfold lateRead
    simp only [List.forall_mem_cons]
    exact ⟨hread 1 5 true hone, nofun, nofun, nofun, nofun, hread 9 (-1) true hnine, nofun, nofun, nofun, nofun⟩
  have hsession : ∀ s₀, step { content := fun _ => [104, 105] } (.fstream 0 "r" 3) = some s₀ →
      Runs.Meets step (fun s e => Session 0 0 0 s e ∧ Reads 0 e) s₀ lateRead := by
    intro s₀ h₀
    refine Runs.meets_and (meets_session (by decide) ?_) (Runs.meets_of_forall fun e he _ => hreads e he)
    cases h₀
    exact nofun
  obtain ⟨f, results, hf, hres, -, -, hprefix, -⟩ := reads_prefix (fun _ => [104, 105]) []
    { content := fun _ => [104, 105] } rfl 0 "r" 3 _ rfl 0 rfl lateRead (hsession _ rfl) _ rfl
  exact ⟨_, _, rfl, rfl, rfl, f, results, hf, hres, hprefix⟩

end CovProcess.File
