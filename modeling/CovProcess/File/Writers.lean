/-
  CovProcess.File.Writers — the ways to write to one `file_t` (see
  `CovProcess.File.Pointers`): `write` goes by the object's own position, the `in()` stream
  and the children that have the file as their output by the descriptor's. Neither moves the
  other.

  Proved: `writers_keep_iff`, what was successfully written stays and the file ends up as all
  of it in order exactly if whoever writes something finds the other's position not beyond
  its own, and what late writes left behind has been passed. `write_then_child` is a child
  that writes over what `write` wrote.
-/

import CovProcess.Lib.Ranges
import CovProcess.File.Pointers

namespace CovProcess.File.Pointers

open FilePointer Content Ranges

/-! ## What is claimed -/

namespace Output

def range (o : Output) : Range := ⟨o.start, o.bytes.length⟩

def fin (o : Output) : Nat := o.start + o.bytes.length

end Output

/-- No successful output is overwritten by a later one. -/
def Intact (landed : List Output) : Prop :=
  landed.Pairwise fun later earlier => earlier.ok = true → Apart later.range earlier.range

def outputs (landed : List Output) : List UInt8 := (landed.reverse.filter Output.ok).flatMap Output.bytes

/-- The ways to write to a file that is open. -/
def Event.writes : Event → Bool
  | .write .. => true
  | .insert .. => true
  | .start _ => true
  | .child .. => true
  | .close _ => true
  | .fstream _ => false
  | .out .. => false

/-- Who writes something is not behind the other position. -/
def OneWay (s : State) : Event → Prop
  | .write i data n _ => ∀ h, s.handles i = some h → data.take n ≠ [] → h.desc.pos ≤ h.obj.writePos
  | .insert i bytes n => ∀ h, s.handles i = some h → bytes.take n ≠ [] → h.obj.writePos ≤ h.desc.pos
  | .child i bytes => ∀ h, s.handles i = some h → bytes ≠ [] → h.obj.writePos ≤ h.desc.pos
  | _ => True

/-! ## Outputs in a file -/

/-- The successful outputs are what is below `top`, and nothing is in the file beyond the
    outputs. -/
structure Placed (top : Nat) (content : List UInt8) (landed : List Output) : Prop where
  covered : ∀ k, (∃ o ∈ landed, o.ok = true ∧ k ∈ o.range.toSet) ↔ k < top
  fin : ∀ o ∈ landed, o.fin ≤ max content.length top
  bound : ∀ b, top ≤ b → (∀ o ∈ landed, o.ok = false → o.fin ≤ b) → content.length ≤ b

/-- The file begins with the successful outputs. -/
structure Ordered (top : Nat) (content : List UInt8) (landed : List Output) : Prop where
  begins : outputs landed <+: content
  length : (outputs landed).length = top

section

variable {top : Nat} {content : List UInt8} {landed : List Output} {o : Output}

/-- The end of the successful outputs after one more. -/
def Output.raise (o : Output) (top : Nat) : Nat := if o.ok then max top o.fin else top

theorem Placed.land (h : Placed top content landed) (hstart : o.start ≤ top) :
    Placed (o.raise top) (pwrite 0 content o.start o.bytes) (o :: landed) where
  covered k := by
    simp only [List.exists_mem_cons_iff, h.covered k, Output.raise]
    cases o.ok with
    | false => simp
    | true =>
      show true = true ∧ (o.start ≤ k ∧ k < o.fin) ∨ k < top ↔ k < max top o.fin
      simp only [true_and]
      omega
  fin x hx := by
    have htop : top ≤ o.raise top := by
      unfold Output.raise
      split
      · exact le_max_left ..
      · exact le_rfl
    have hgrow := @length_le_pwrite _ 0 content o.start o.bytes
    cases hx with
    | head =>
      by_cases hb : o.bytes = []
      · have hfin : o.fin = o.start := by rw [Output.fin, hb]; rfl
        omega
      · rw [length_pwrite content o.start hb]
        show o.start + o.bytes.length ≤ _
        omega
    | tail _ hx =>
      have := h.fin x hx
      omega
  bound b htop hlate := by
    have hold : content.length ≤ b := by
      refine h.bound b ?_ fun x hx => hlate x (List.mem_cons_of_mem _ hx)
      unfold Output.raise at htop
      split at htop <;> omega
    have hfin : o.fin ≤ b := by
      cases hok : o.ok with
      | false => exact hlate o List.mem_cons_self hok
      | true =>
        unfold Output.raise at htop
        rw [if_pos hok] at htop
        omega
    by_cases hb : o.bytes = []
    · rw [hb]
      exact hold
    · rw [length_pwrite content o.start hb]
      exact max_le hold hfin

/-- An output keeps the successful ones whole exactly when it starts where they end. -/
theorem Placed.intact_cons_iff (h : Placed top content landed) (hstart : o.start ≤ top) :
    Intact (o :: landed) ↔ Intact landed ∧ (o.bytes ≠ [] → o.start = top) := by
  rw [Intact, List.pairwise_cons, and_comm]
  refine and_congr_right fun _ => ?_
  constructor
  · intro hapart hb
    by_contra hne
    have hpos := List.length_pos_iff.mpr hb
    obtain ⟨x, hx, hok, hmem⟩ := (h.covered o.start).mpr (by omega)
    refine Set.disjoint_left.mp (hapart x hx hok) ⟨le_rfl, ?_⟩ hmem
    show o.start < o.start + o.bytes.length
    omega
  · intro htop x hx hok
    refine Set.disjoint_left.mpr ?_
    intro k hk hk'
    have hlow : o.start ≤ k := hk.1
    have hhigh : k < o.start + o.bytes.length := hk.2
    have hlt := (h.covered k).mp ⟨x, hx, hok, hk'⟩
    have := htop (List.ne_nil_of_length_pos (by omega))
    omega

theorem outputs_cons (o : Output) (landed : List Output) :
    outputs (o :: landed) = outputs landed ++ if o.ok then o.bytes else [] := by
  rw [outputs, List.reverse_cons, List.filter_append, List.flatMap_append]
  cases hok : o.ok with
  | true => simp [outputs, hok]
  | false => simp [outputs, hok]

/-- An output where the successful ones end. -/
theorem Ordered.land (h : Ordered top content landed) (hle : o.start ≤ top) (hstart : o.bytes ≠ [] → o.start = top) :
    Ordered (o.raise top) (pwrite 0 content o.start o.bytes) (o :: landed) := by
  have hlen := h.length
  rcases eq_or_ne o.bytes [] with hb | hb
  · have hsame : outputs (o :: landed) = outputs landed := by
      rw [outputs_cons, hb, ite_self, List.append_nil]
    have hraise : o.raise top = top := by
      have hfin : o.fin = o.start := by rw [Output.fin, hb]; rfl
      rw [Output.raise, hfin, Nat.max_eq_left hle, ite_self]
    rw [hb, hraise]
    exact ⟨hsame ▸ h.begins, hsame ▸ hlen⟩
  · have htop := hstart hb
    have hbound := h.begins.length_le
    have hcontent : pwrite 0 content o.start o.bytes =
        outputs landed ++ (o.bytes ++ content.drop (top + o.bytes.length)) := by
      rw [pwrite_eq content o.start hb, htop, Nat.sub_eq_zero_of_le (by omega), List.replicate_zero, List.append_nil,
        List.append_assoc, ← hlen, ← List.prefix_iff_eq_take.mp h.begins]
    rw [hcontent]
    refine ⟨?_, ?_⟩
    · rw [outputs_cons, List.prefix_append_right_inj]
      split
      · exact List.prefix_append ..
      · exact List.nil_prefix
    · rw [outputs_cons, List.length_append, hlen, Output.raise]
      split
      · show top + o.bytes.length = max top (o.start + o.bytes.length)
        omega
      · rfl

/-- The file is the successful outputs if no late one is beyond them. -/
theorem Ordered.content_eq_iff (h : Ordered top content landed) (hp : Placed top content landed) :
    content = outputs landed ↔ ∀ o ∈ landed, o.ok = false → o.fin ≤ top := by
  have hlen := h.length
  constructor
  · intro hc o ho _
    have := hp.fin o ho
    rw [hc] at this
    omega
  · intro hlate
    have hbound := hp.bound top le_rfl hlate
    exact (h.begins.eq_of_length_le (by omega)).symm

end

/-! ## The system -/

/-- One handle that is not in append mode, its positions and the outputs. -/
structure Kept (h : Handle) (s : State) : Prop where
  handle : ∀ i g, s.handles i = some g ↔ i = 0 ∧ g = h
  append : h.obj.append = false
  flag : h.desc.append = false
  placed : Placed (max h.obj.writePos h.desc.pos) s.content s.landed

section

variable {h : Handle} {s s' : State} {e : Event}

/-- Where the positions were for what a step writes. -/
structure Landed (h h' : Handle) (o : Output) (s s' : State) : Prop where
  handle : ∀ i g, s'.handles i = some g ↔ i = 0 ∧ g = h'
  append : h'.obj.append = false
  flag : h'.desc.append = false
  content : s'.content = pwrite 0 s.content o.start o.bytes
  landed : s'.landed = o :: s.landed
  start : o.start ≤ max h.obj.writePos h.desc.pos
  raise : max h'.obj.writePos h'.desc.pos = o.raise (max h.obj.writePos h.desc.pos)

theorem Landed.kept {h' : Handle} {o : Output} (hl : Landed h h' o s s') (hk : Kept h s) : Kept h' s' where
  handle := hl.handle
  append := hl.append
  flag := hl.flag
  placed := by
    rw [hl.raise, hl.content, hl.landed]
    exact hk.placed.land hl.start

theorem Kept.put (hk : Kept h s) (h' : Handle) (i : Nat) (g : Handle) :
    (s.put 0 h').handles i = some g ↔ i = 0 ∧ g = h' := by
  rw [State.put_handles]
  split
  · rename_i hi
    rw [Option.some_inj]
    exact ⟨fun hg => ⟨hi, hg.symm⟩, fun hg => hg.2.symm⟩
  · rename_i hi
    rw [hk.handle]
    exact ⟨fun hg => absurd hg.1 hi, fun hg => absurd hg.1 hi⟩

theorem Kept.output (hk : Kept h s) (bytes : List UInt8) : ∃ h', Landed h h' ⟨h.desc.pos, bytes, true⟩ s (s.output 0 h bytes) := by
  have hstart : h.desc.start s.content.length = h.desc.pos := if_neg (ne_true_of_eq_false hk.flag)
  refine ⟨{ h with desc := (h.desc.write 0 s.content bytes).1 }, hk.put _, hk.append, hk.flag, ?_, ?_, le_max_right .., ?_⟩
  · show pwrite 0 s.content (h.desc.start s.content.length) bytes = _
    rw [hstart]
  · show _ :: s.landed = _
    rw [hstart]
  · show max h.obj.writePos (h.desc.start s.content.length + bytes.length) =
      max (max h.obj.writePos h.desc.pos) (h.desc.pos + bytes.length)
    rw [hstart]
    omega

theorem Kept.write (hk : Kept h s) {data : List UInt8} {n : Nat} (hlen : data.length ≤ 4294967295) (hn : n ≤ data.length)
    (onTime : Bool) : ∃ h', Landed h h' ⟨h.obj.writePos, data.take n, State.reported h.obj data n onTime⟩ s
      (s.write 0 h data n onTime) := by
  have happend : ¬ h.obj.append = true := ne_true_of_eq_false hk.append
  refine ⟨{ h with obj := (h.obj.finish (.write data) onTime (toInt n) []).1 }, ?_, finish_append.trans hk.append, hk.flag,
    ?_, ?_, le_max_left .., ?_⟩
  · rw [State.write, if_neg happend]
    exact hk.put _
  · rw [State.write, if_neg happend]
  · rw [State.write, if_neg happend]
  · show max (h.obj.finish (.write data) onTime (toInt n) []).1.writePos h.desc.pos =
      if State.reported h.obj data n onTime = true then max (max h.obj.writePos h.desc.pos)
        (h.obj.writePos + (data.take n).length) else max h.obj.writePos h.desc.pos
    rw [finish_writePos (by omega), List.length_take, Nat.min_eq_left hn]
    cases State.reported h.obj data n onTime with
    | true =>
      rw [if_pos ⟨hk.append, rfl⟩, if_pos rfl]
      omega
    | false =>
      rw [if_neg fun h => Bool.false_ne_true h.2, if_neg Bool.false_ne_true]
      rfl

/-- A step writes, where the condition is about its position, or changes neither the file nor
    the positions. -/
theorem kept_step (he : e.writes = true) (hk : Kept h s) (hs : step .unix s e = some s') :
    (∃ h' o, Landed h h' o s s' ∧ (OneWay s e ↔ (o.bytes ≠ [] → o.start = max h.obj.writePos h.desc.pos))) ∨
      (∃ h', Kept h' s' ∧ h'.obj.writePos = h.obj.writePos ∧ h'.desc.pos = h.desc.pos ∧ s'.content = s.content ∧
        s'.landed = s.landed ∧ OneWay s e) := by
  have hone : ∀ {Q : Handle → Prop}, (∀ g, s.handles 0 = some g → Q g) ↔ Q h := by
    intro Q
    refine ⟨fun hall => hall h ((hk.handle 0 h).mpr ⟨rfl, rfl⟩), ?_⟩
    intro hq g hg
    rw [((hk.handle 0 g).mp hg).2]
    exact hq
  cases e with
  | write i data n onTime =>
    obtain ⟨g, hg, hs⟩ := Option.bind_eq_some_iff.mp hs
    obtain ⟨⟨-, hlen, hn⟩, hs⟩ := Option.ite_none_right_eq_some.mp hs
    obtain ⟨rfl, rfl⟩ := (hk.handle i g).mp hg
    cases hs
    obtain ⟨h', hl⟩ := hk.write hlen hn onTime
    refine .inl ⟨h', _, hl, hone.trans ?_⟩
    show (data.take n ≠ [] → g.desc.pos ≤ g.obj.writePos) ↔ (data.take n ≠ [] → g.obj.writePos = _)
    exact forall_congr' fun _ => ⟨fun h => (max_eq_left h).symm, fun h => by omega⟩
  | insert i bytes n =>
    obtain ⟨g, hg, hs⟩ := Option.bind_eq_some_iff.mp hs
    obtain ⟨-, hs⟩ := Option.ite_none_right_eq_some.mp hs
    obtain ⟨rfl, rfl⟩ := (hk.handle i g).mp hg
    cases hs
    obtain ⟨h', hl⟩ := hk.output (bytes.take n)
    refine .inl ⟨h', _, hl, hone.trans ?_⟩
    show (bytes.take n ≠ [] → g.obj.writePos ≤ g.desc.pos) ↔ (bytes.take n ≠ [] → g.desc.pos = _)
    exact forall_congr' fun _ => ⟨fun h => (max_eq_right h).symm, fun h => by omega⟩
  | child i bytes =>
    obtain ⟨g, hg, hs⟩ := Option.bind_eq_some_iff.mp hs
    obtain ⟨-, hs⟩ := Option.ite_none_right_eq_some.mp hs
    obtain ⟨rfl, rfl⟩ := (hk.handle i g).mp hg
    cases hs
    obtain ⟨h', hl⟩ := hk.output bytes
    refine .inl ⟨h', _, hl, hone.trans ?_⟩
    show (bytes ≠ [] → g.obj.writePos ≤ g.desc.pos) ↔ (bytes ≠ [] → g.desc.pos = _)
    exact forall_congr' fun _ => ⟨fun h => (max_eq_right h).symm, fun h => by omega⟩
  | start i =>
    obtain ⟨g, hg, hs⟩ := Option.bind_eq_some_iff.mp hs
    obtain ⟨-, hs⟩ := Option.ite_none_right_eq_some.mp hs
    obtain ⟨rfl, rfl⟩ := (hk.handle i g).mp hg
    cases hs
    exact .inr ⟨_, ⟨hk.put _, hk.append, hk.flag, hk.placed⟩, rfl, rfl, rfl, rfl, trivial⟩
  | close i =>
    obtain ⟨g, hg, rfl⟩ := Option.map_eq_some_iff.mp hs
    obtain ⟨rfl, rfl⟩ := (hk.handle i g).mp hg
    exact .inr ⟨_, ⟨hk.put _, hk.append, hk.flag, hk.placed⟩, rfl, rfl, rfl, rfl, trivial⟩
  | fstream mode => cases he
  | out i n => cases he

theorem kept_iff (he : e.writes = true) (hk : Kept h s) (hs : step .unix s e = some s') :
    (∃ h', Kept h' s') ∧ (Intact s'.landed ↔ Intact s.landed ∧ OneWay s e) := by
  rcases kept_step he hk hs with ⟨h', o, hl, hiff⟩ | ⟨h', hk', -, -, -, hlanded, hone⟩
  · refine ⟨⟨h', hl.kept hk⟩, ?_⟩
    rw [hl.landed, hiff]
    exact hk.placed.intact_cons_iff hl.start
  · rw [hlanded]
    exact ⟨⟨h', hk'⟩, (and_iff_left hone).symm⟩

theorem ordered_step (he : e.writes = true) (hk : Kept h s) (ho : Ordered (max h.obj.writePos h.desc.pos) s.content s.landed)
    (hone : OneWay s e) (hs : step .unix s e = some s') :
    ∃ h', Kept h' s' ∧ Ordered (max h'.obj.writePos h'.desc.pos) s'.content s'.landed := by
  rcases kept_step he hk hs with ⟨h', o, hl, hiff⟩ | ⟨h', hk', hw, hp, hcontent, hlanded, -⟩
  · refine ⟨h', hl.kept hk, ?_⟩
    rw [hl.raise, hl.content, hl.landed]
    exact ho.land hl.start (hiff.mp hone)
  · refine ⟨h', hk', ?_⟩
    rw [hw, hp, hcontent, hlanded]
    exact ho

end

theorem kept_fstream {content : List UInt8} {mode : String} (hmode : mode = "w" ∨ mode = "w+") {s : State}
    (hs : step .unix { content := content } (.fstream mode) = some s) :
    ∃ h, Kept h s ∧ h.obj.writePos = 0 ∧ h.desc.pos = 0 ∧ s.content = [] ∧ s.landed = [] := by
  obtain ⟨m, hm, rfl⟩ := Option.map_eq_some_iff.mp hs
  have hflags : m.append = false ∧ m.createTrunc = true := by
    rcases hmode with rfl | rfl
    · cases hm
      exact ⟨rfl, rfl⟩
    · cases hm
      exact ⟨rfl, rfl⟩
  have hcontent : (State.openFile .unix { content := content } m).content = [] := if_pos hflags.2
  refine ⟨⟨.openFile 0 m 0, ⟨0, m.append⟩, false⟩, ⟨?_, hflags.1, hflags.1, ?_⟩, rfl, rfl, hcontent, rfl⟩
  · intro i g
    show Function.update (fun _ => none) 0 _ i = some g ↔ _
    rw [Function.update_apply]
    split
    · rename_i hi
      rw [Option.some_inj]
      exact ⟨fun hg => ⟨hi, hg.symm⟩, fun hg => hg.2.symm⟩
    · rename_i hi
      exact iff_of_false nofun fun hg => hi hg.1
  · rw [hcontent]
    refine ⟨?_, nofun, fun b _ _ => Nat.zero_le b⟩
    intro k
    exact iff_of_false (fun ⟨_, ho, _⟩ => nomatch ho) (Nat.not_lt_zero k)

/-- A file opened with `w` or `w+`, and any outputs on it, of calls, streams and children. -/
theorem writers_keep_iff (content : List UInt8) (mode : String) (hmode : mode = "w" ∨ mode = "w+") (s₀ : State)
    (h₀ : step .unix { content := content } (.fstream mode) = some s₀) (es : List Event)
    (hes : ∀ e ∈ es, e.writes = true) (s : State) (h : run .unix s₀ es = some s) :
    ∃ f, s.handles 0 = some f ∧ (Intact s.landed ∧ s.content = outputs s.landed ↔
      Runs.Meets (step .unix) OneWay s₀ es ∧
        ∀ o ∈ s.landed, o.ok = false → o.fin ≤ max f.obj.writePos f.desc.pos) := by
  obtain ⟨f₀, hk₀, hw₀, hp₀, hcontent₀, hlanded₀⟩ := kept_fstream hmode h₀
  obtain ⟨⟨f, hk⟩, hiff⟩ := Runs.exec_meets_iff_on (A := fun e => e.writes = true) (I := fun s => ∃ f, Kept f s)
    (Q := fun s => Intact s.landed) (fun s e s' he ⟨f, hk⟩ hs => (kept_iff he hk hs).1)
    (fun s e s' he ⟨f, hk⟩ hs => (kept_iff he hk hs).2) ⟨f₀, hk₀⟩ hes h
  have hintact : Intact s.landed ↔ Runs.Meets (step .unix) OneWay s₀ es := by
    rw [hiff, hlanded₀]
    exact and_iff_right .nil
  refine ⟨f, (hk.handle 0 f).mpr ⟨rfl, rfl⟩, ?_⟩
  rw [hintact]
  refine and_congr_right fun hmeets => ?_
  have hstart : Ordered (max f₀.obj.writePos f₀.desc.pos) s₀.content s₀.landed := by
    rw [hw₀, hp₀, hcontent₀, hlanded₀]
    exact ⟨List.nil_prefix, rfl⟩
  obtain ⟨g, hg, hordered⟩ := Runs.exec_meets
    (I := fun s => ∃ h, Kept h s ∧ Ordered (max h.obj.writePos h.desc.pos) s.content s.landed)
    (P := fun s e => OneWay s e ∧ e.writes = true)
    (fun s e s' ⟨_, hk, ho⟩ he hs => ordered_step he.2 hk ho he.1 hs) ⟨f₀, hk₀, hstart⟩
    (Runs.meets_and hmeets (Runs.meets_of_forall fun e he _ => hes e he)) h
  obtain ⟨-, rfl⟩ := (hk.handle 0 g).mp ((hg.handle 0 g).mpr ⟨rfl, rfl⟩)
  exact hordered.content_eq_iff hk.placed

/-- Only `write`, once past its deadline. -/
def retried : List Event := [.write 0 [1, 2] 2 false, .write 0 [1, 2] 2 true]

theorem writers_keep_iff_retried :
    ∃ s₀ s, step .unix {} (.fstream "w") = some s₀ ∧ run .unix s₀ retried = some s ∧ s.content = [1, 2] ∧
      Intact s.landed ∧ s.content = outputs s.landed := by
  obtain ⟨f, hf, hiff⟩ := writers_keep_iff [] "w" (.inl rfl) _ rfl retried (by decide) _ rfl
  cases hf
  refine ⟨_, _, rfl, rfl, by decide, hiff.mpr ⟨⟨?_, ?_⟩, by decide⟩⟩
  · intro h hh _
    cases hh
    decide
  · intro s hs
    cases hs
    refine ⟨?_, fun _ _ => trivial⟩
    intro h hh _
    cases hh
    decide

/-- A child writes where the descriptor is, over what `write` wrote. -/
theorem write_then_child :
    ∃ s₀ s, step .unix {} (.fstream "w") = some s₀ ∧
      run .unix s₀ [.write 0 [1, 2] 2 true, .start 0, .child 0 [3]] = some s ∧ s.content = [3, 2] ∧
      outputs s.landed = [1, 2, 3] ∧ ¬ Intact s.landed := by
  refine ⟨_, _, rfl, rfl, by decide, by decide, ?_⟩
  intro hintact
  have hapart := List.rel_of_pairwise_cons hintact List.mem_cons_self rfl
  exact Set.disjoint_left.mp hapart (show 0 ∈ Set.Ico 0 1 from ⟨le_rfl, Nat.one_pos⟩) ⟨le_rfl, Nat.two_pos⟩

end CovProcess.File.Pointers
