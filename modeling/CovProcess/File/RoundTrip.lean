/-
  CovProcess.File.RoundTrip — one fiber writes to a file and reads it back through the same
  object (see `CovProcess.File.View`), in append mode or from an empty file. Writes go to the
  end and a read goes on where the last one ended, so the object is a queue.

  Proved: `reads_back`, in a session where nothing returned -1: what the reads returned is a
  prefix of what the file had and what the writes acknowledged, in order; the file is just
  that whenever no write waits, and its end is reported only when all of it was read.
-/

import CovProcess.File.Writes

namespace CovProcess.File

open State Content

/-! ## What was written -/

/-- The bytes that a call put into the file, going by what it returned. -/
def acknowledged : ReqKind → Returned → List UInt8
  | .write data, .int n => data.take n.toNat
  | _, _ => []

/-- The same of calls in order, up to the last that returned. -/
def written (calls : List ReqKind) (rs : List Returned) : List UInt8 :=
  (calls.zip rs).flatMap fun e => acknowledged e.1 e.2

def calls (φ : Nat) (es : List Event) : List ReqKind := es.filterMap fun e => (e.op φ).map Op.kind

/-- Reads, writes of data shorter than 2^31, and flushes. -/
def ReadsOrWrites (φ : Nat) (e : Event) : Prop := ∀ op, e.op φ = some op →
  (∀ size, op = .read size → FitsInt size) ∧ ∀ data, op = .write data → data.length < 2147483648

theorem written_snoc {ks : List ReqKind} {k : ReqKind} {rs : List Returned} {r : Returned} (h : ks.length = rs.length) :
    written (ks ++ [k]) (r :: rs).reverse = written ks rs.reverse ++ acknowledged k r := by
  rw [written, List.reverse_cons, List.zip_append (by rw [List.length_reverse, h]), List.flatMap_append]
  simp [written]

theorem written_pending {ks : List ReqKind} {k : ReqKind} {rs : List Returned} (h : ks.length = rs.length) :
    written (ks ++ [k]) rs.reverse = written ks rs.reverse := by
  have hzip : (ks ++ [k]).zip (rs.reverse ++ []) = ks.zip rs.reverse ++ [k].zip [] :=
    List.zip_append (by rw [List.length_reverse, h])
  rw [List.append_nil, List.zip_nil_right, List.append_nil] at hzip
  rw [written, hzip]
  rfl

/-! ## The invariant -/

/-- The file had `start`; `ks` are the calls before the one that waits, and `w` is what there
    is to read after them. -/
structure Queue (start : List UInt8) (ks : List ReqKind) (w : List UInt8) (v : View) : Prop where
  aligned : ks.length = v.results.length
  all : w = start ++ written ks v.results.reverse
  pos : v.obj.append = false → v.obj.writePos = w.length
  inside : v.obj.readPos ≤ w.length
  got : v.results.reverse.flatMap Returned.bytes = w.take v.obj.readPos
  content : (∀ c data, v.call = some c → c.kind = .write data → c.outcome = none) → v.content = w
  read : ∀ c size, v.call = some c → c.kind = .read size → size < 2147483648 ∧ c.offset = some v.obj.readPos ∧
    ∀ n b, c.outcome = some (n, b) →
      n < 0 ∨ (n = b.length ∧ b <+: w.drop v.obj.readPos ∧ (b = [] → w.length ≤ v.obj.readPos))
  write : ∀ c data, v.call = some c → c.kind = .write data → data.length < 2147483648 ∧
    c.offset = (if v.obj.append then none else some v.obj.writePos) ∧
    ∀ n b, c.outcome = some (n, b) → n.toNat ≤ data.length ∧ v.content = w ++ data.take n.toNat

theorem no_call {α : Type} {P : Call → α → Prop} : ∀ c a, none = some c → P c a := nofun

def View.pending (v : View) : List ReqKind := (v.call.map Call.kind).toList

section

variable {start : List UInt8} {ks : List ReqKind} {w : List UInt8} {v v' : View} {op : Option Op}

theorem Queue.settle {f : FileObj} {call : Option Call} {content : List UInt8} {rs : List Returned}
    (h : Queue start ks w ⟨f, call, content, rs⟩) (hcontent : content = w) {k : ReqKind} {r : Returned}
    (hk : acknowledged k r = []) (hr : r.bytes = []) : Queue start (ks ++ [k]) w ⟨f, none, content, r :: rs⟩ where
  aligned := by simpa using h.aligned
  all := by
    rw [written_snoc h.aligned, hk, List.append_nil]
    exact h.all
  pos := h.pos
  inside := h.inside
  got := (flatMap_bytes_cons hr rs).trans h.got
  content _ := hcontent
  read := no_call
  write := no_call

/-- The end of a read: it goes on where the last one ended. -/
theorem Queue.finish_read {f : FileObj} {call : Option Call} {content : List UInt8} {rs : List Returned}
    (h : Queue start ks w ⟨f, call, content, rs⟩) (hcontent : content = w) {size : Nat} {onTime : Bool} {n : Int}
    {b : List UInt8} (hout : n < 0 ∨ (n = b.length ∧ b <+: w.drop f.readPos ∧ (b = [] → w.length ≤ f.readPos))) :
    Queue start (ks ++ [.read size]) w
      ⟨(f.finish (.read size) onTime n b).1, none, content, (f.finish (.read size) onTime n b).2 :: rs⟩ := by
  rcases @CovProcess.File.finish_read w f size onTime _ _ hout with ⟨heq, -, hprefix⟩ | ⟨heq, -⟩ | heq
  · rw [heq]
    have hlen := hprefix.length_le
    rw [List.length_drop] at hlen
    have hin : f.readPos ≤ w.length := h.inside
    have hgot : rs.reverse.flatMap Returned.bytes = w.take f.readPos := h.got
    refine ⟨by simpa using h.aligned, ?_, h.pos, ?_, ?_, fun _ => hcontent, no_call, no_call⟩
    · show w = start ++ written (ks ++ [.read size]) (.data b :: rs).reverse
      rw [written_snoc h.aligned]
      exact h.all.trans (congrArg (start ++ ·) (List.append_nil _).symm)
    · show f.readPos + b.length ≤ w.length
      omega
    · show (_ :: rs).reverse.flatMap Returned.bytes = w.take (f.readPos + b.length)
      rw [List.reverse_cons, List.flatMap_append, hgot, List.flatMap_singleton, List.take_add]
      exact congrArg _ (List.prefix_iff_eq_take.mp hprefix)
  · rw [heq]
    exact h.settle hcontent rfl rfl
  · rw [heq]
    exact h.settle hcontent rfl rfl

/-- The end of a write that is in time: what was executed counts. -/
theorem Queue.finish_write {f : FileObj} {call : Option Call} {content : List UInt8} {rs : List Returned} {data : List UInt8}
    {n : Int} {b : List UInt8} (h : Queue start ks w ⟨f, call, content, rs⟩) (hcontent : content = w ++ data.take n.toNat)
    (hn : n.toNat ≤ data.length) :
    Queue start (ks ++ [.write data]) (w ++ data.take n.toNat)
      ⟨(f.finish (.write data) true n b).1, none, content, (f.finish (.write data) true n b).2 :: rs⟩ := by
  have hin : f.readPos ≤ w.length := h.inside
  have hgot : rs.reverse.flatMap Returned.bytes = w.take f.readPos := h.got
  have hobj : (f.finish (.write data) true n b).1.readPos = f.readPos ∧
      ((f.finish (.write data) true n b).1.append = false →
        (f.finish (.write data) true n b).1.writePos = w.length + n.toNat) := by
    rw [FileObj.finish, if_pos rfl]
    by_cases hn0 : 0 < n ∧ f.append = false
    · rw [if_pos hn0]
      exact ⟨rfl, fun happend => congrArg (· + n.toNat) (h.pos happend)⟩
    · rw [if_neg hn0]
      refine ⟨rfl, ?_⟩
      intro happend
      have hpos : f.writePos = w.length := h.pos happend
      have hneg : ¬ 0 < n := fun hn => hn0 ⟨hn, happend⟩
      show f.writePos = _
      omega
  obtain ⟨hread, hpos⟩ := hobj
  refine ⟨by simpa using h.aligned, ?_, ?_, ?_, ?_, fun _ => hcontent, no_call, no_call⟩
  · show w ++ data.take n.toNat = start ++ written (ks ++ [.write data]) (.int n :: rs).reverse
    rw [written_snoc h.aligned, ← List.append_assoc]
    exact congrArg (· ++ _) h.all
  · intro happend
    refine (hpos happend).trans ?_
    rw [List.length_append, List.length_take]
    omega
  · show (f.finish (.write data) true n b).1.readPos ≤ _
    rw [hread, List.length_append]
    omega
  · show (.int n :: rs).reverse.flatMap Returned.bytes = (w ++ data.take n.toNat).take (f.finish (.write data) true n b).1.readPos
    rw [hread, List.take_append_of_le_length hin, flatMap_bytes_cons rfl]
    exact hgot

/-- A request that waits, with what is known of it. -/
theorem Queue.wait {f : FileObj} {call call' : Option Call} {content content' : List UInt8} {rs : List Returned}
    (h : Queue start ks w ⟨f, call, content, rs⟩)
    (hcontent : (∀ c data, call' = some c → c.kind = .write data → c.outcome = none) → content' = w)
    (hread : ∀ c size, call' = some c → c.kind = .read size → size < 2147483648 ∧ c.offset = some f.readPos ∧
      ∀ n b, c.outcome = some (n, b) →
        n < 0 ∨ (n = b.length ∧ b <+: w.drop f.readPos ∧ (b = [] → w.length ≤ f.readPos)))
    (hwrite : ∀ c data, call' = some c → c.kind = .write data → data.length < 2147483648 ∧
      c.offset = (if f.append then none else some f.writePos) ∧
      ∀ n b, c.outcome = some (n, b) → n.toNat ≤ data.length ∧ content' = w ++ data.take n.toNat) :
    Queue start ks w ⟨f, call', content', rs⟩ :=
  ⟨h.aligned, h.all, h.pos, h.inside, h.got, hcontent, hread, hwrite⟩

/-- The request of the call is executed. -/
theorem Queue.execute {f : FileObj} {kind : ReqKind} {offset : Option Nat} {reached : Bool} {old new bytes : List UInt8}
    {rs : List Returned} {result : Int} (h : Queue start ks w ⟨f, some ⟨kind, offset, reached, none⟩, old, rs⟩)
    (hexec : Executes f.append kind offset old result bytes new) :
    Queue start ks w ⟨f, some ⟨kind, offset, reached, some (toInt result, bytes)⟩, new, rs⟩ := by
  have hold : old = w := h.content (by
    intro c _ hc _
    cases hc
    rfl)
  subst hold
  rcases hexec with ⟨err, rfl, rfl, rfl⟩ | ⟨n, own, rfl, hexec⟩
  · -- an error: nothing is read or written
    have hfits : FitsInt (-((err.val : Int) + 1)) := ⟨by omega, by omega⟩
    rw [toInt_eq hfits]
    refine h.wait (fun _ => rfl) ?_ ?_
    · intro c size hc hkind
      cases hc
      obtain ⟨hsize, hoffset, -⟩ := h.read _ size rfl hkind
      refine ⟨hsize, hoffset, ?_⟩
      intro n b hout
      cases hout
      exact .inl (by omega)
    · intro c data hc hkind
      cases hc
      obtain ⟨hlen, hoffset, -⟩ := h.write _ data rfl hkind
      refine ⟨hlen, hoffset, ?_⟩
      intro n b hout
      cases hout
      have hzero : (-((err.val : Int) + 1)).toNat = 0 := by omega
      rw [hzero, List.take_zero, List.append_nil]
      exact ⟨Nat.zero_le _, rfl⟩
  · cases kind with
    | read size =>
      obtain ⟨hn, hlen, hzero, rfl, rfl⟩ := hexec
      obtain ⟨hsize, hoffset, -⟩ := h.read _ size rfl rfl
      simp only at hoffset
      subst hoffset
      have hfits : FitsInt (n : Int) := ⟨by omega, by omega⟩
      rw [toInt_eq hfits]
      refine h.wait (fun _ => rfl) ?_ ?_
      · intro c size' hc hkind
        cases hc
        cases hkind
        refine ⟨hsize, rfl, ?_⟩
        intro m b hout
        cases hout
        have hb : ((new.drop ((some f.readPos).getD own)).take n).length = n := by
          rw [List.length_take]
          omega
        refine .inr ⟨by rw [hb], List.take_prefix .., ?_⟩
        intro hnil
        rw [hnil] at hb
        exact List.drop_eq_nil_iff.mp (hzero hb.symm)
      · intro c data hc hkind
        cases hc
        cases hkind
    | write data =>
      obtain ⟨hn, rfl, rfl⟩ := hexec
      obtain ⟨hlen, hoffset, -⟩ := h.write _ data rfl rfl
      simp only at hoffset
      subst hoffset
      have hfits : FitsInt (n : Int) := ⟨by omega, by omega⟩
      rw [toInt_eq hfits]
      refine h.wait ?_ ?_ ?_
      · intro hc
        cases hc _ data rfl rfl
      · intro c size hc hkind
        cases hc
        cases hkind
      · intro c data' hc hkind
        cases hc
        cases hkind
        refine ⟨hlen, rfl, ?_⟩
        intro m b hout
        cases hout
        refine ⟨hn, ?_⟩
        -- in append mode or not, the place is the end
        have hplace : (if f.append then old.length else (if f.append then none else some f.writePos).getD own) = old.length := by
          cases happend : f.append with
          | false => exact h.pos happend
          | true => rfl
        rw [hplace, pwrite_end, Int.toNat_natCast]
    | fsync =>
      obtain ⟨rfl, rfl, rfl⟩ := hexec
      refine h.wait (fun _ => rfl) ?_ ?_
      · intro c size hc hkind
        cases hc
        cases hkind
      · intro c data hc hkind
        cases hc
        cases hkind

/-- A step of the view, if no write is lost to its deadline. -/
theorem Queue.step (h : Queue start ks w v) (hop : ∀ o, op = some o →
    (∀ size, o = .read size → FitsInt size) ∧ ∀ data, o = .write data → data.length < 2147483648)
    (hs : View.Step op v v') (hno : ∀ r ∈ v'.results, r ≠ .int (-1)) :
    ∃ ks' w', Queue start ks' w' v' ∧ ks' ++ v'.pending = ks ++ v.pending ++ (op.map Op.kind).toList := by
  cases hs with
  | idle => exact ⟨ks, w, h, (List.append_nil _).symm⟩
  | @refuse o f c rs r hr =>
    have hcontent : c = w := h.content no_call
    refine ⟨ks ++ [o.kind], w, h.settle hcontent ?_ ?_, by simp [View.pending]⟩
    · cases o with
      | read size => rfl
      | write data =>
        cases hr
        rfl
      | flush => rfl
    · cases o with
      | read size => rcases hr with rfl | ⟨-, rfl⟩ <;> rfl
      | write data =>
        cases hr
        rfl
      | flush =>
        cases hr
        rfl
  | @submit o f c rs hopen hkind =>
    have hcontent : c = w := h.content no_call
    refine ⟨ks, w, h.wait (fun _ => hcontent) ?_ ?_, by simp [View.pending]⟩
    · intro k size hk hsize
      cases hk
      cases o with
      | read size' =>
        cases hsize
        have := ((hop _ rfl).1 size' rfl).2
        exact ⟨by omega, rfl, of_no_outcome⟩
      | write data => cases hsize
      | flush => cases hsize
    · intro k data hk hdata
      cases hk
      cases o with
      | read size => cases hdata
      | write data' =>
        cases hdata
        exact ⟨(hop _ rfl).2 data rfl, rfl, of_no_outcome⟩
      | flush => cases hdata
  | @execute f kind offset reached old new bytes rs result hexec =>
    exact ⟨ks, w, h.execute hexec, (List.append_nil _).symm⟩
  | @deadline f kind offset c rs =>
    have hcontent : c = w := h.content (by
      intro k _ hk _
      cases hk
      rfl)
    refine ⟨ks, w, h.wait (fun _ => hcontent) ?_ ?_, (List.append_nil _).symm⟩
    · intro k size hk hsize
      cases hk
      obtain ⟨hlt, hoffset, -⟩ := h.read _ size rfl hsize
      exact ⟨hlt, hoffset, of_no_outcome⟩
    · intro k data hk hdata
      cases hk
      obtain ⟨hlt, hoffset, -⟩ := h.write _ data rfl hdata
      exact ⟨hlt, hoffset, of_no_outcome⟩
  | @cancel f kind offset c rs =>
    have hcontent : c = w := h.content (by
      intro k _ hk _
      cases hk
      rfl)
    have hpending : ks ++ [kind] ++ View.pending ⟨(f.finish kind false UV_ECANCELED []).1, none, c,
        (f.finish kind false UV_ECANCELED []).2 :: rs⟩ = ks ++ [kind] ++ [] := rfl
    cases kind with
    | read size => exact ⟨_, w, h.finish_read hcontent (.inl (by decide)), hpending⟩
    | write data => exact absurd rfl (hno (.int (-1)) (List.mem_cons_self ..))
    | fsync => exact ⟨_, w, h.settle hcontent rfl rfl, hpending⟩
  | @finish f kind offset reached c bytes rs result =>
    cases kind with
    | read size =>
      have hcontent : c = w := h.content (by
        intro k _ hk hkind
        cases hk
        cases hkind)
      obtain ⟨-, -, hout⟩ := h.read _ size rfl rfl
      exact ⟨_, w, h.finish_read hcontent (hout _ _ rfl), by simp [View.pending]⟩
    | write data =>
      obtain ⟨-, -, hout⟩ := h.write _ data rfl rfl
      obtain ⟨hn, hcontent⟩ := hout _ _ rfl
      cases reached with
      | false => exact ⟨_, _, h.finish_write hcontent hn, by simp [View.pending]⟩
      | true => exact absurd rfl (hno (.int (-1)) (List.mem_cons_self ..))
    | fsync =>
      have hcontent : c = w := h.content (by
        intro k _ hk hkind
        cases hk
        cases hkind)
      exact ⟨ks ++ [.fsync], w, h.settle hcontent rfl rfl, by simp [View.pending]⟩
  | @close f f' c rs hclosed hread hwrite happend hfile =>
    have hcontent : c = w := h.content no_call
    have hread' : f'.readPos = f.readPos := hread
    refine ⟨ks, w, ⟨h.aligned, h.all, ?_, ?_, ?_, fun _ => hcontent, no_call, no_call⟩,
      (List.append_nil _).symm⟩
    · intro hfalse
      exact hwrite.trans (h.pos (happend.symm.trans hfalse))
    · show f'.readPos ≤ w.length
      rw [hread']
      exact h.inside
    · show rs.reverse.flatMap Returned.bytes = w.take f'.readPos
      rw [hread']
      exact h.got

theorem Queue.inFile (h : Queue start ks w v) : w <+: v.content ∧ (v.call = none → v.content = w) := by
  refine ⟨?_, ?_⟩
  · cases hc : v.call with
    | none =>
      have hcontent := h.content (fun c data hc' => by rw [hc] at hc'; cases hc')
      exact hcontent.symm ▸ List.prefix_refl w
    | some c =>
      by_cases hw : ∀ c' data, v.call = some c' → c'.kind = .write data → c'.outcome = none
      · exact (h.content hw).symm ▸ List.prefix_refl w
      · push Not at hw
        obtain ⟨c', data, hc', hkind, hout⟩ := hw
        obtain ⟨⟨n, b⟩, hout⟩ := Option.ne_none_iff_exists'.mp hout
        obtain ⟨-, -, hwrote⟩ := h.write c' data hc' hkind
        rw [(hwrote n b hout).2]
        exact List.prefix_append ..
  · intro hc
    exact h.content (fun c data hc' => by rw [hc] at hc'; cases hc')

theorem Queue.result (h : Queue start ks w v) (hs : View.Step op v v') (hr : v'.results = .data [] :: v.results) :
    (∃ size ≤ 0, op = some (.read size)) ∨ w.length ≤ v.obj.readPos := by
  have hne : ∀ rs : List Returned, rs ≠ .data [] :: rs := fun rs hrs => by simpa using congrArg List.length hrs
  have hend : ∀ {f : FileObj} {size : Nat} {onTime : Bool} {n : Int} {b : List UInt8},
      n < 0 ∨ (n = b.length ∧ b <+: w.drop f.readPos ∧ (b = [] → w.length ≤ f.readPos)) →
      (f.finish (.read size) onTime n b).2 = .data [] → w.length ≤ f.readPos := by
    intro f size onTime n b hout hres
    rcases @CovProcess.File.finish_read w f size onTime _ _ hout with ⟨heq, hb, -⟩ | ⟨-, hle⟩ | heq
    · rw [heq] at hres
      exact absurd (Returned.data.inj hres) hb
    · exact hle
    · rw [heq] at hres
      cases hres
  cases hs with
  | @refuse o f c rs r hr' =>
    obtain ⟨rfl, -⟩ := List.cons.inj hr
    cases o with
    | read size =>
      rcases hr' with hnull | ⟨hsize, -⟩
      · cases hnull
      · exact .inl ⟨size, hsize, rfl⟩
    | write data => cases hr'
    | flush => cases hr'
  | @cancel f kind offset c rs =>
    obtain ⟨hres, -⟩ := List.cons.inj hr
    cases kind with
    | read size => exact .inr (hend (.inl (by decide)) hres)
    | write data => cases hres
    | fsync => cases hres
  | @finish f kind offset reached c bytes rs result =>
    obtain ⟨hres, -⟩ := List.cons.inj hr
    cases kind with
    | read size =>
      obtain ⟨-, -, hout⟩ := h.read _ size rfl rfl
      exact .inr (hend (hout _ _ rfl) hres)
    | write data =>
      cases reached with
      | false => cases hres
      | true => cases hres
    | fsync => cases hres
  | _ => exact absurd hr (hne _)

end

/-- Nothing that was returned is forgotten. -/
theorem View.Step.results {op : Option Op} {v v' : View} (h : View.Step op v v') {r : Returned} (hr : r ∈ v.results) :
    r ∈ v'.results := by
  cases h with
  | refuse => exact List.mem_cons_of_mem _ hr
  | cancel => exact List.mem_cons_of_mem _ hr
  | finish => exact List.mem_cons_of_mem _ hr
  | _ => exact hr

theorem calls_snoc (φ : Nat) (es : List Event) (e : Event) :
    calls φ (es ++ [e]) = calls φ es ++ ((e.op φ).map Op.kind).toList := by
  rw [calls, List.filterMap_append]
  refine congrArg (_ ++ ·) ?_
  cases hk : (e.op φ).map Op.kind with
  | none => exact List.filterMap_cons_none hk
  | some k => exact List.filterMap_cons_some hk

/-- Any calls by one fiber on an object it opened, and on no other, in any state of the
    system, while nobody else changes the file (`Session`), the data shorter than 2^31 and the
    sizes an `int`; no result is -1. -/
theorem reads_back (content : FileId → List UInt8) (es₁ : List Event) (s₁ : State)
    (h₁ : run { content := content } es₁ = some s₁) (file : FileId) (mode : String) (m : Mode) (hm : parseMode mode = some m)
    (fd : Int) (s₀ : State) (h₀ : step s₁ (.fstream file mode fd) = some s₀)
    (hstart : m.append = true ∨ s₀.content file = []) (φ : Nat) (hφ : s₁.fibers φ = none) (es : List Event)
    (hes : Runs.Meets step (fun s e => Session φ s₁.nobjs file s e ∧ ReadsOrWrites φ e) s₀ es) (s : State)
    (h : run s₀ es = some s) (results : List Returned) (hresults : s.returned φ = results ++ s₀.returned φ)
    (hno : ∀ r ∈ results, r ≠ .int (-1)) :
    ∃ f w, s.objs s₁.nobjs = some f ∧ w = s₀.content file ++ written (calls φ es) results.reverse ∧
      results.reverse.flatMap Returned.bytes = w.take f.readPos ∧ f.readPos ≤ w.length ∧ w <+: s.content file ∧
      (s.fibers φ = none → s.content file = w) ∧
      ∀ e s', Session φ s₁.nobjs file s e → step s e = some s' → s'.returned φ = .data [] :: s.returned φ →
        (∃ size ≤ 0, e.op φ = some (.read size)) ∨ f.readPos = w.length := by
  have hfresh : Fresh s₁ := Runs.exec_invariant (fun _ _ _ => fresh_step) (fresh_start content) h₁
  obtain ⟨m', hm', hsolo, hviews⟩ := views_fstream hfresh h₀ hφ
  obtain rfl : m = m' := Option.some.inj (hm.symm.trans hm')
  have hfirst : Queue (s₀.content file) [] (s₀.content file) ⟨.openFile file m fd, none, s₀.content file, []⟩ := by
    refine ⟨rfl, (List.append_nil _).symm, ?_, Nat.zero_le _, rfl, fun _ => rfl, no_call, no_call⟩
    intro happend
    rcases hstart with happend' | hnil
    · exact absurd (happend.symm.trans happend') Bool.false_ne_true
    · rw [hnil]
      rfl
  -- over the run: the calls so far, with the one that waits last
  obtain ⟨v, hv, hsolo', hfile, hqueue⟩ := Runs.exec_meets_history
    (I := fun es s => ∃ v, Views φ s₁.nobjs (s₀.returned φ) s v ∧ Solo φ s₁.nobjs s ∧ v.obj.file = file ∧
      ((∀ r ∈ v.results, r ≠ .int (-1)) → ∃ ks w, Queue (s₀.content file) ks w v ∧ ks ++ v.pending = calls φ es))
    (by
      intro es s e s' ⟨v, hv, hsolo, hfile, hqueue⟩ he hs
      subst hfile
      obtain ⟨v', hv', hstep⟩ := view_step hv hsolo he.1 hs
      refine ⟨v', hv', solo_step hsolo he.1.used hs, hstep.file, ?_⟩
      intro hno
      obtain ⟨ks, w, hq, hcalls⟩ := hqueue (fun r hr => hno r (hstep.results hr))
      obtain ⟨ks', w', hq', hcalls'⟩ := hq.step he.2 hstep hno
      refine ⟨ks', w', hq', ?_⟩
      rw [hcalls', hcalls, calls_snoc])
    ⟨_, hviews, hsolo, rfl, fun _ => ⟨[], _, hfirst, rfl⟩⟩ hes h
  have hres : v.results = results := List.append_cancel_right (hv.results.symm.trans hresults)
  subst hres hfile
  obtain ⟨ks, w, hq, hcalls⟩ := hqueue hno
  have hwritten : w = s₀.content v.obj.file ++ written (calls φ es) v.results.reverse := by
    refine hq.all.trans (congrArg (_ ++ ·) ?_)
    rw [← hcalls]
    cases hc : v.call with
    | none => simp [View.pending, hc]
    | some c =>
      have hpending : v.pending = [c.kind] := by simp [View.pending, hc]
      rw [hpending, written_pending hq.aligned]
  refine ⟨v.obj, w, hv.obj, hwritten, hq.got, hq.inside, ?_, ?_, ?_⟩
  · rw [hv.content]
    exact hq.inFile.1
  · intro hφ
    rw [hv.content]
    refine hq.inFile.2 ?_
    have hcall := hv.call
    cases hc : v.call with
    | none => rfl
    | some c =>
      rw [hc] at hcall
      obtain ⟨-, w, -, hw, -⟩ := hcall
      rw [hφ] at hw
      cases hw
  · intro e s' he hs hr
    obtain ⟨v', hv', hstep⟩ := view_step hv hsolo' he hs
    have hres : v'.results = .data [] :: v.results := by
      rw [hv'.results, hv.results, ← List.cons_append] at hr
      exact List.append_cancel_right hr
    rcases hq.result hstep hres with hsize | hle
    · exact .inl hsize
    · exact .inr (Nat.le_antisymm hq.inside hle)

/-- A write, a short read, a write, and a read of the rest. -/
def turns : List Event :=
  [.call 0 0 (.write [1, 2]) (-1) true, .take 0, .exec 0 (.moves 2 0), .turn 0 false,
    .call 0 0 (.read 1) (-1) true, .take 1, .exec 1 (.moves 1 0), .turn 0 false,
    .call 0 0 (.write [3]) (-1) true, .take 2, .exec 2 (.moves 1 0), .turn 0 false,
    .call 0 0 (.read 9) 5 true, .take 3, .exec 3 (.moves 2 0), .turn 0 false]

theorem reads_back_turns :
    ∃ s₀ s, step {} (.fstream 0 "w+" 3) = some s₀ ∧ run s₀ turns = some s ∧
      s.returned 0 = [.data [2, 3], .int 1, .data [1], .int 2] ∧
      ∃ f w, s.objs 0 = some f ∧ w = s₀.content 0 ++ written (calls 0 turns) (s.returned 0).reverse ∧
        (s.returned 0).reverse.flatMap Returned.bytes = w.take f.readPos ∧ s.content 0 = w := by
  have hops : ∀ e ∈ turns, ReadsOrWrites 0 e := by
    have hread : ∀ size d b, FitsInt size → ReadsOrWrites 0 (.call 0 0 (.read size) d b) := by
      intro size d b hsize op hop
      cases hop
      refine ⟨?_, fun _ => nofun⟩
      intro size' heq
      cases heq
      exact hsize
    have hwrite : ∀ data d b, data.length < 2147483648 → ReadsOrWrites 0 (.call 0 0 (.write data) d b) := by
      intro data d b hdata op hop
      cases hop
      refine ⟨fun _ => nofun, ?_⟩
      intro data' heq
      cases heq
      exact hdata
    have hone : FitsInt 1 := by unfold FitsInt; decide
    have hnine : FitsInt 9 := by unfold FitsInt; decide
    unfold turns
    simp only [List.forall_mem_cons]
    exact ⟨hwrite [1, 2] (-1) true (by decide), nofun, nofun, nofun, hread 1 (-1) true hone, nofun, nofun, nofun,
      hwrite [3] (-1) true (by decide), nofun, nofun, nofun, hread 9 5 true hnine, nofun, nofun, nofun, nofun⟩
  have hsession : ∀ s₀, step {} (.fstream 0 "w+" 3) = some s₀ →
      Runs.Meets step (fun s e => Session 0 0 0 s e ∧ ReadsOrWrites 0 e) s₀ turns := by
    intro s₀ h₀
    refine Runs.meets_and (meets_session (by decide) ?_) (Runs.meets_of_forall fun e he _ => hops e he)
    cases h₀
    exact nofun
  obtain ⟨f, w, hf, hw, hgot, -, -, hfile, -⟩ := reads_back (fun _ => []) [] {} rfl 0 "w+" ⟨true, true, false, true⟩ rfl 3 _ rfl
    (.inr rfl) 0 rfl turns (hsession _ rfl) _ rfl [.data [2, 3], .int 1, .data [1], .int 2] rfl (by decide)
  exact ⟨_, _, rfl, rfl, rfl, f, w, hf, hw, hgot, hfile rfl⟩

end CovProcess.File
