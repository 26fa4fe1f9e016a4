/-
  CovProcess.Unix.HandshakeProofs — what every run of the handshake comes to (see
  `CovProcess.Unix.Handshake`).

  While the child has not exec'd or written its error, its copy of the fail pipe's write
  end is at the number the parent's was, and nowhere else (`Sole`): the stream setup
  touches that number only when a redirect target is equal to it (`Stale`). So an end of
  file is an `exec`, and four bytes are the child's error.

  Proved: `handshake_iff`, a run that ended is as it should be exactly when no target is
  stale and no `waitpid` was interrupted (it is not tried again, and the child stays a
  zombie); and a run always ends unless it is interrupted for ever.
-/

import CovProcess.Unix.Handshake

namespace CovProcess.Unix

open FdTable

variable {φ : Type}

/-! ## The one write end -/

/-- The table has the fail pipe's write end at `w` and nowhere else. -/
structure Sole (w : Fd) (t : FdTab φ) : Prop where
  here : t.file w = some (.pipe .fail .write)
  only : ∀ x, t.file x = some (.pipe .fail .write) → x = w

namespace Sole

variable {w : Fd} {t : FdTab φ}

theorem holds (h : Sole w t) : HoldsWrite t := ⟨w, h.here⟩

/-- A table that agrees at `w` and has nothing new elsewhere. -/
theorem of_sub {t' : FdTab φ} (h : Sole w t) (hw : t'.get w = t.get w)
    (hsub : ∀ x, t'.get x = none ∨ t'.get x = t.get x) : Sole w t' := by
  refine ⟨?_, ?_⟩
  · rw [Table.file, hw]
    exact h.here
  · intro x hx
    rcases hsub x with hn | he
    · simp [Table.file, hn] at hx
    · refine h.only x ?_
      rwa [Table.file, he] at hx

theorem closeFd_if (h : Sole w t) (b : Bool) (fd : Fd) (hne : b = true → w ≠ fd) :
    Sole w (if b then closeFd t fd else t) := by
  refine h.of_sub ?_ ?_
  · rw [get_closeFd_if, if_neg]
    exact fun hb => hne hb.1 hb.2
  · intro x
    rw [get_closeFd_if]
    split
    · exact Or.inl rfl
    · exact Or.inr rfl

theorem dup2 (h : Sole w t) {src dst : Fd} (hs : w ≠ src) (hd : w ≠ dst) : Sole w (t.dup2 src dst) := by
  refine ⟨?_, ?_⟩
  · rw [Table.file, get_dup2_ne t src hd]
    exact h.here
  · intro x hx
    by_cases hxd : x = dst
    · subst hxd
      -- the target has the source's file, or what it had
      unfold Table.dup2 at hx
      split at hx
      · exact h.only x hx
      · rename_i d hget
        split at hx
        · exact h.only x hx
        · have hfile : t.file src = some d.file := by rw [Table.file, hget]; rfl
          by_cases hr : InRange x
          · rw [Table.file, get_put _ hr, if_pos rfl] at hx
            exact absurd (h.only src (hfile.trans hx)).symm hs
          · exact absurd (Table.get_eq_none _ hr) (file_ne_none.mp (by rw [hx]; simp))
    · refine h.only x ?_
      rwa [Table.file, get_dup2_ne t src hxd] at hx

end Sole

/-! ## The stream setup -/

variable {S : Setup φ} {t₀ : Table φ} {t : FdTab φ}

/-- At the fork the write end is at the fail pipe's number. -/
theorem AtFork.sole (hf : AtFork S.startup t₀ S.pipes S.pfail t) : Sole S.pfail.wr t := by
  refine ⟨hf.made.ends .fail .write rfl, ?_⟩
  intro x hx
  by_cases hold : t₀.get x = none
  · obtain ⟨n, e, hn, rfl⟩ := hf.made.only x hold (file_ne_none.mp (by rw [hx]; simp))
    have hend := hf.made.ends n e hn
    rw [hx] at hend
    cases hend
    rfl
  · obtain ⟨d, hd⟩ := Option.ne_none_iff_exists'.mp hold
    rw [Table.file, hf.made.old hd] at hx
    cases hx

/-- A stream's own number is not the write end's, unless its target is stale. -/
theorem AtFork.own_ne {n : PipeName} {skip : Bool} {r : RedirectInfo}
    (hf : AtFork S.startup t₀ S.pipes S.pfail t) (hs : Slots skip r (pipeFds S.pipes S.pfail n))
    (hn : piped S.startup n = (!skip && !r.redirected)) (hne : n ≠ .fail) (hskip : skip = false)
    (hstale : ¬ (skip = false ∧ r.redirected = true ∧ r.target = S.pfail.wr)) (e : PipeEnd) :
    S.pfail.wr ≠ (pipeFds S.pipes S.pfail n).at e := by
  cases hred : r.redirected with
  | true =>
    have hat : (pipeFds S.pipes S.pfail n).at e = r.target := by
      rw [hs.redirected hskip hred]
      cases e <;> rfl
    rw [hat]
    exact fun h => hstale ⟨hskip, hred, h.symm⟩
  | false =>
    refine hf.made.ne_end hf.sole.here (by rw [hn, hskip, hred]; rfl) ?_
    intro hx
    cases hx
    exact hne rfl

theorem sole_plumbing (hf : AtFork S.startup t₀ S.pipes S.pfail t) (h3 : 3 ≤ S.pfail.wr) (hstale : ¬ Stale S)
    {f : FdTab φ → FdTab φ} (hmem : f ∈ plumbing S) {u : FdTab φ} (hu : Sole S.pfail.wr u) :
    Sole S.pfail.wr (f u) := by
  have hlow : ∀ x : Int, x < 3 → S.pfail.wr ≠ x := fun x hx h => absurd h3 (by rw [h]; exact not_le.mpr hx)
  have hend : ∀ (n : PipeName) (e : PipeEnd), piped S.startup n = true → (n ≠ .fail ∨ e ≠ .write) →
      S.pfail.wr ≠ (pipeFds S.pipes S.pfail n).at e := by
    intro n e hn hne
    refine hf.made.ne_end hf.sole.here hn ?_
    intro hx
    cases hx
    rcases hne with h | h <;> exact h rfl
  have hin : S.startup.inheritStdin = false → S.pfail.wr ≠ S.pipes.pstdin.rd := fun hskip =>
    hf.own_ne (n := .stdin) hf.stdin rfl (by decide) hskip
      (fun h => hstale ⟨_, _, Or.inl rfl, h⟩) .read
  have hout : S.startup.inheritStdout = false → S.pfail.wr ≠ S.pipes.pstdout.wr := fun hskip =>
    hf.own_ne (n := .stdout) hf.stdout rfl (by decide) hskip
      (fun h => hstale ⟨_, _, Or.inr (Or.inl rfl), h⟩) .write
  have herr : (S.startup.mergeOutputs || S.startup.inheritStderr) = false → S.pfail.wr ≠ S.pipes.pstderr.wr :=
    fun hskip => hf.own_ne (n := .stderr) hf.stderr rfl (by decide) hskip
      (fun h => hstale ⟨_, _, Or.inr (Or.inr rfl), h⟩) .write
  simp only [plumbing, List.mem_cons, List.not_mem_nil, or_false] at hmem
  rcases hmem with rfl | rfl | rfl | rfl | rfl | rfl
  · -- the read end of the fail pipe and the far ends
    have h1 : Sole S.pfail.wr (closeFd u S.pfail.rd) :=
      hu.closeFd_if true _ fun _ => hend .fail .read rfl (Or.inr (by decide))
    have h2 := h1.closeFd_if (!S.startup.inheritStdin && !S.startup.stdin.redirected) S.pipes.pstdin.wr
      fun hb => hend .stdin .write hb (Or.inl (by decide))
    exact h2.closeFd_if _ _ fun hb => hend .stdout .read hb (Or.inl (by decide))
  · unfold setupStdin
    split
    · rename_i hi
      exact hu.dup2 (hin (by simpa using hi)) (hlow 0 (by decide))
    · exact hu
  · unfold setupStdout
    split
    · rename_i hi
      exact hu.dup2 (hout (by simpa using hi)) (hlow 1 (by decide))
    · exact hu
  · unfold setupStderr
    split
    · exact hu.dup2 (hlow 1 (by decide)) (hlow 2 (by decide))
    · split
      · have hskip : (S.startup.mergeOutputs || S.startup.inheritStderr) = false := by simp_all
        refine Sole.dup2 (hu.closeFd_if _ _ ?_) (herr hskip) (hlow 2 (by decide))
        intro hb
        exact hend .stderr .read (by simp_all [piped]) (Or.inl (by decide))
      · exact hu
  · have h1 := hu.closeFd_if (!S.startup.inheritStdin) S.pipes.pstdin.rd fun hb => hin (by simpa using hb)
    have h2 := h1.closeFd_if (!S.startup.inheritStdout) S.pipes.pstdout.wr
      fun hb => hout (by simpa using hb)
    exact h2.closeFd_if _ _ fun hb => herr (by simp_all)
  · exact hu.of_sub (closeAllDescriptors_spares _ _ (Or.inr rfl)) fun x => closeAllDescriptors_sub _ _ _ _ x

/-- With a stale target the child has no write end left when it gets to the `chdir`. -/
theorem stale_closed (hf : AtFork S.startup t₀ S.pipes S.pfail t) (h3 : 3 ≤ S.pfail.wr) (hstale : Stale S) :
    ((plumbing S).foldl (fun u f => f u) t).get S.pfail.wr = none := by
  have hlow : ∀ x : Int, x < 3 → S.pfail.wr ≠ x := fun x hx h => absurd h3 (by rw [h]; exact not_le.mpr hx)
  change (closeAllDescriptors S.kernel.child (childStreams S.startup S.pipes S.pfail t) 3 S.pfail.wr).get _ = _
  rw [closeAllDescriptors_spares _ _ (Or.inr rfl),
    get_childStreams (hlow 0 (by decide)) (hlow 1 (by decide)) (hlow 2 (by decide)), if_pos]
  obtain ⟨skip, r, hr, hskip, hred, htarget⟩ := hstale
  rcases hr with h | h | h
  · obtain ⟨rfl, rfl⟩ := Prod.mk.inj h
    have hslots := hf.stdin.redirected hskip hred
    exact Or.inr (Or.inr (Or.inl ⟨by simp [hskip], by rw [hslots]; exact htarget.symm⟩))
  · obtain ⟨rfl, rfl⟩ := Prod.mk.inj h
    have hslots := hf.stdout.redirected hskip hred
    exact Or.inr (Or.inl ⟨by simp [hskip], by rw [hslots]; exact htarget.symm⟩)
  · obtain ⟨rfl, rfl⟩ := Prod.mk.inj h
    have hslots := hf.stderr.redirected hskip hred
    exact Or.inl ⟨by simp [hskip], by rw [hslots]; exact htarget.symm⟩

/-! ## Runs without a stale target -/

/-- What the child's error message in the pipe is, at each point. -/
def sent : ChildPc φ → List UInt8
  | .closing e | .exiting e | .exited (some e) | .reaped (some e) => encode e
  | _ => []

/-- The child has written the error `e`, and nobody has waited for it. -/
def Wrote (e : Errno) (pc : ChildPc φ) : Prop := pc = .closing e ∨ pc = .exiting e ∨ pc = .exited (some e)

/-- The write end while the child may still report, and that it is gone afterwards. -/
def ChildOk (S : Setup φ) : ChildPc φ → FdTab φ → Prop
  | .plumb todo, u => Sole S.pfail.wr u ∧ ∀ f ∈ todo, f ∈ plumbing S
  | .fcntl, u => Sole S.pfail.wr u
  | .exec, u => Sole S.pfail.wr u ∧ u.get S.pfail.wr = some ⟨.pipe .fail .write, true⟩
  | .failing _, u => Sole S.pfail.wr u
  | .closing _, _ => True
  | .exiting _, _ => True
  | _, u => ¬ HoldsWrite u

def NotReaped (pc : ChildPc φ) : Prop := ∀ f, pc ≠ .reaped f

/-- The reply the parent acts on: the end of the file after an `exec`, or the error the
    child wrote; then the child is reaped unless the `waitpid` was interrupted. -/
def Replied (es : List Event) (pc : ChildPc φ) (r : Reply) : Prop :=
  (r = .eof ∧ pc.execed = true ∧ .waitpid true ∉ es) ∨
    ∃ e : Errno, r = .errno e.toInt ∧
      (pc = .reaped (some e) ∧ .waitpid true ∉ es ∨ Wrote e pc ∧ .waitpid true ∈ es)

/-- The parent against what the child sent. -/
def ParentOk (es : List Event) (content : List UInt8) (pc : ChildPc φ) : ParentPc → Prop
  | .closeWrite => content = sent pc ∧ NotReaped pc ∧ .waitpid true ∉ es
  | .reading got => got ++ content = sent pc ∧ got.length < 4 ∧ NotReaped pc ∧ .waitpid true ∉ es
  | .reaping r => (∃ e : Errno, r = .errno e.toInt ∧ Wrote e pc) ∧ .waitpid true ∉ es
  | .closing r => Replied es pc r
  | .finished r => Replied es pc r

structure Inv (S : Setup φ) (t : FdTab φ) (es : List Event) (c : Sys φ) : Prop where
  tab : c.parentTab = parentTabAt S t c.parent
  child : ChildOk S c.child c.childTab
  parent : ParentOk es c.content c.child c.parent

theorem mem_append_iff (es : List Event) {ev : Event} (hev : ev ≠ .waitpid true) :
    .waitpid true ∈ es ++ [ev] ↔ .waitpid true ∈ es := by
  simp [List.mem_append, Ne.symm hev]

/-- An event that is no interrupted `waitpid` leaves what the parent acts on, if the child
    keeps what it did. -/
theorem Replied.keep {es : List Event} {pc pc' : ChildPc φ} {r : Reply} {ev : Event} (h : Replied es pc r)
    (he : pc.execed = true → pc'.execed = true) (hr : ∀ f, pc = .reaped f → pc' = .reaped f)
    (hw : ∀ e, Wrote e pc → Wrote e pc') (hev : ev ≠ .waitpid true) : Replied (es ++ [ev]) pc' r := by
  rcases h with ⟨rfl, hx, hno⟩ | ⟨e, rfl, ⟨hpc, hno⟩ | ⟨hwrote, hin⟩⟩
  · exact Or.inl ⟨rfl, he hx, mt (mem_append_iff _ hev).mp hno⟩
  · exact Or.inr ⟨e, rfl, Or.inl ⟨hr _ hpc, mt (mem_append_iff _ hev).mp hno⟩⟩
  · exact Or.inr ⟨e, rfl, Or.inr ⟨hw e hwrote, (mem_append_iff _ hev).mpr hin⟩⟩

/-- Wherever the parent is, if the child sent nothing and is not reaped. -/
theorem ParentOk.keep {es : List Event} {content : List UInt8} {pc pc' : ChildPc φ} {pp : ParentPc} {ev : Event}
    (h : ParentOk es content pc pp) (hs : sent pc' = sent pc) (he : pc.execed = true → pc'.execed = true)
    (hn : NotReaped pc → NotReaped pc') (hr : ∀ f, pc = .reaped f → pc' = .reaped f)
    (hw : ∀ e, Wrote e pc → Wrote e pc') (hev : ev ≠ .waitpid true) : ParentOk (es ++ [ev]) content pc' pp := by
  have hmem := mem_append_iff es hev
  cases pp with
  | closeWrite => exact ⟨h.1.trans hs.symm, hn h.2.1, mt hmem.mp h.2.2⟩
  | reading got => exact ⟨h.1.trans hs.symm, h.2.1, hn h.2.2.1, mt hmem.mp h.2.2.2⟩
  | reaping r =>
    obtain ⟨⟨e, hr', hwrote⟩, hno⟩ := h
    exact ⟨⟨e, hr', hw e hwrote⟩, mt hmem.mp hno⟩
  | closing r => exact Replied.keep h he hr hw hev
  | finished r => exact Replied.keep h he hr hw hev

/-- A step of a child that has reported nothing keeps what is said of the parent. -/
theorem ParentOk.quiet {es : List Event} {content : List UInt8} {pc pc' : ChildPc φ} {pp : ParentPc} {ev : Event}
    (h : ParentOk es content pc pp) (hs : sent pc = []) (hs' : sent pc' = [])
    (he : pc.execed = true → pc'.execed = true) (hn : NotReaped pc') (hr : NotReaped pc)
    (hev : ev ≠ .waitpid true) : ParentOk (es ++ [ev]) content pc' pp := by
  refine h.keep (hs'.trans hs.symm) he (fun _ => hn) (fun f hf => absurd hf (hr f)) ?_ hev
  intro e hw
  rcases hw with rfl | rfl | rfl <;> cases hs

theorem sent_length (pc : ChildPc φ) : sent pc = [] ∨ ∃ e, sent pc = encode e ∧ (Wrote e pc ∨ pc = .reaped (some e)) := by
  unfold sent
  split
  · exact Or.inr ⟨_, rfl, Or.inl (Or.inl rfl)⟩
  · exact Or.inr ⟨_, rfl, Or.inl (Or.inr (Or.inl rfl))⟩
  · exact Or.inr ⟨_, rfl, Or.inl (Or.inr (Or.inr rfl))⟩
  · exact Or.inr ⟨_, rfl, Or.inr rfl⟩
  · exact Or.inl rfl

theorem execed_of_eof {S : Setup φ} {pc : ChildPc φ} {u : FdTab φ} (h : ChildOk S pc u) (hs : sent pc = [])
    (hw : ¬ HoldsWrite u) (hr : NotReaped pc) : pc.execed = true := by
  cases pc with
  | plumb todo => exact absurd h.1.holds hw
  | fcntl => exact absurd (Sole.holds h) hw
  | exec => exact absurd h.1.holds hw
  | failing e => exact absurd (Sole.holds h) hw
  | closing e => cases hs
  | exiting e => cases hs
  | running => rfl
  | exited f =>
    cases f with
    | none => rfl
    | some e => cases hs
  | reaped f => exact absurd rfl (hr f)

theorem inv_start (hf : AtFork S.startup t₀ S.pipes S.pfail t) : Inv S t [] (start S t) where
  tab := rfl
  child := ⟨hf.sole, fun _ h => h⟩
  parent := ⟨rfl, by rintro f ⟨⟩, by simp⟩

theorem setCloexec_spec {u u' : FdTab φ} {w : Fd} (h : u.setCloexec w = some u') :
    (∀ x, u'.file x = u.file x) ∧ ∃ f, u'.get w = some ⟨f, true⟩ ∧ u.file w = some f := by
  rw [Table.setCloexec, Option.map_eq_some_iff] at h
  obtain ⟨d, hd, rfl⟩ := h
  have hr : InRange w := u.inRange w (by simp [hd])
  refine ⟨?_, d.file, by rw [get_put _ hr, if_pos rfl], by rw [Table.file, hd]; rfl⟩
  intro x
  rw [Table.file, Table.file, get_put _ hr]
  split
  · rename_i h
    rw [h, hd]
    rfl
  · rfl

/-- An `exec` with the one write end close-on-exec leaves none. -/
theorem Sole.exec {w : Fd} {u : FdTab φ} {f : OpenFile φ} (h : Sole w u) (hc : u.get w = some ⟨f, true⟩) :
    ¬ HoldsWrite u.exec := by
  intro hx
  obtain ⟨x, hx⟩ := hx
  by_cases hxw : x = w
  · rw [Table.file, get_exec_drop u fun d hd => ?_] at hx
    · cases hx
    · rw [hxw, hc] at hd
      cases hd
      rfl
  · cases hg : u.get x with
    | none => simp [Table.file, Table.exec, hg] at hx
    | some d =>
      cases hb : d.cloexec with
      | true => simp [Table.file, Table.exec, hg, hb] at hx
      | false =>
        rw [Table.file, get_exec_keep u hg hb] at hx
        exact hxw (h.only x (by rw [Table.file, hg]; exact hx))

theorem childOk_moves (hf : AtFork S.startup t₀ S.pipes S.pfail t) (h3 : 3 ≤ S.pfail.wr) (hstale : ¬ Stale S)
    {c c' : Sys φ} {ev : Event} (hi : ChildOk S c.child c.childTab) (h : Moves S c ev c') :
    ChildOk S c'.child c'.childTab := by
  cases h with
  | closeWrite | finish | eof | short | data | reply | readIntr | waitIntr | writeIntr => exact hi
  | reap hp hc =>
    rw [hc] at hi
    exact hi
  | plumb hc =>
    rw [hc] at hi
    exact ⟨sole_plumbing hf h3 hstale (hi.2 _ List.mem_cons_self) hi.1, fun f hm => hi.2 f (List.mem_cons_of_mem _ hm)⟩
  | closeFail | write => trivial
  | exit | childExit => exact not_holds_empty _
  | chdir hc | chdirFails hc =>
    rw [hc] at hi
    exact hi.1
  | fcntl hc ht =>
    rw [hc] at hi
    obtain ⟨hfile, f, hget, hf'⟩ := setCloexec_spec ht
    rw [Sole.here hi] at hf'
    cases hf'
    exact ⟨⟨(hfile _).trans (Sole.here hi), fun x hx => Sole.only hi x ((hfile x).symm.trans hx)⟩, hget⟩
  | fcntlClosed hc | fcntlFails hc =>
    rw [hc] at hi
    exact hi
  | exec hc =>
    rw [hc] at hi
    exact hi.1.exec hi.2
  | execFails hc =>
    rw [hc] at hi
    exact hi.1

theorem read_message {pc : ChildPc φ} {got content : List UInt8} {n : Nat} (hs : got ++ content = sent pc)
    (hpos : 0 < n) (hlen : n ≤ content.length) (hfour : got.length + n = 4) :
    ∃ e, got ++ content.take n = encode e ∧ (Wrote e pc ∨ pc = .reaped (some e)) := by
  rcases sent_length pc with h | ⟨e, h, hwrote⟩
  · rw [h, List.append_eq_nil_iff] at hs
    rw [hs.2] at hlen
    exact absurd hpos (by simpa using hlen)
  · refine ⟨e, ?_, hwrote⟩
    have htotal : (got ++ content.take n) ++ content.drop n = encode e := by
      rw [List.append_assoc, List.take_append_drop, hs, h]
    have hl : (got ++ content.take n).length = (encode e).length := by
      rw [List.length_append, List.length_take, Nat.min_eq_left hlen, hfour]
      rfl
    exact List.append_inj_left (htotal.trans (List.append_nil _).symm) hl

/-- A child that still has its error to write was not waited for, and its message is what
    the parent finds. -/
theorem ParentOk.write {es : List Event} {content : List UInt8} {e : Errno} {pp : ParentPc}
    (h : ParentOk es content (ChildPc.failing (φ := φ) e) pp) :
    ParentOk (es ++ [.write false]) (content ++ encode e) (ChildPc.closing (φ := φ) e) pp := by
  have hmem := mem_append_iff es (show Event.write false ≠ .waitpid true by decide)
  have hreply : ∀ r, ¬ Replied es (ChildPc.failing (φ := φ) e) r := by
    rintro r (⟨-, hx, -⟩ | ⟨_, -, ⟨hx, -⟩ | ⟨hx | hx | hx, -⟩⟩) <;> cases hx
  cases pp with
  | closeWrite => exact ⟨by rw [h.1]; rfl, by rintro f ⟨⟩, mt hmem.mp h.2.2⟩
  | reading got =>
    obtain ⟨hs, hlen, -, hno⟩ := h
    exact ⟨by rw [← List.append_assoc, hs]; rfl, hlen, by rintro f ⟨⟩, mt hmem.mp hno⟩
  | reaping r => obtain ⟨⟨_, -, hx | hx | hx⟩, -⟩ := h <;> cases hx
  | closing r => exact absurd h (hreply r)
  | finished r => exact absurd h (hreply r)

theorem parentOk_moves {es : List Event} {c c' : Sys φ} {ev : Event} (hchild : ChildOk S c.child c.childTab)
    (hi : ParentOk es c.content c.child c.parent) (h : Moves S c ev c') :
    ParentOk (es ++ [ev]) c'.content c'.child c'.parent := by
  cases h with
  | closeWrite hp =>
    rw [hp] at hi
    exact ⟨hi.1, by decide, hi.2.1, mt (mem_append_iff _ (by decide)).mp hi.2.2⟩
  | finish hp =>
    rw [hp] at hi
    exact Replied.keep hi id (fun _ => id) (fun _ => id) (by decide)
  | eof hp hc hw hw' =>
    rw [hp, hc] at hi
    obtain ⟨hs, -, hr, hno⟩ := hi
    exact Or.inl ⟨rfl, execed_of_eof hchild hs.symm hw' hr, mt (mem_append_iff _ (by simp)).mp hno⟩
  | short hp hgot hc hw hw' =>
    -- a message is never cut: what was read is nothing or all four bytes
    rw [hp, hc] at hi
    obtain ⟨hs, hlen, -, -⟩ := hi
    rw [List.append_nil] at hs
    rcases sent_length c.child with h | ⟨e, h, -⟩
    · exact absurd (hs.trans h) hgot
    · rw [hs, h] at hlen
      exact absurd hlen (by simp [encode])
  | @data got n hp hpos hle hlen hne =>
    rw [hp] at hi
    obtain ⟨hs, hlt, hr, hno⟩ := hi
    refine ⟨?_, ?_, hr, mt (mem_append_iff _ (by simp)).mp hno⟩
    · rw [List.append_assoc, List.take_append_drop]
      exact hs
    · rw [List.length_append, List.length_take, Nat.min_eq_left hlen]
      omega
  | @reply got n hp hpos hle hlen hfour =>
    rw [hp] at hi
    obtain ⟨hs, hlt, hr, hno⟩ := hi
    refine ⟨?_, mt (mem_append_iff _ (by simp)).mp hno⟩
    obtain ⟨e, hgot, hwrote⟩ := read_message hs hpos hlen hfour
    refine ⟨e, by rw [hgot, decode_encode], ?_⟩
    rcases hwrote with hwrote | hreaped
    · exact hwrote
    · exact absurd hreaped (hr _)
  | readIntr hp =>
    exact hi.keep rfl id id (fun _ => id) (fun _ => id) (by decide)
  | waitIntr hp =>
    rw [hp] at hi
    obtain ⟨⟨e, hr, hwrote⟩, -⟩ := hi
    exact Or.inr ⟨e, hr, Or.inr ⟨hwrote, by simp⟩⟩
  | reap hp hc =>
    rw [hp, hc] at hi
    obtain ⟨⟨e, hr, hwrote⟩, hno⟩ := hi
    rcases hwrote with h | h | h
    · cases h
    · cases h
    · cases h
      exact Or.inr ⟨e, hr, Or.inl ⟨rfl, mt (mem_append_iff _ (by decide)).mp hno⟩⟩
  | plumb hc | chdir hc | chdirFails hc | fcntl hc | fcntlClosed hc | fcntlFails hc | exec hc | execFails hc =>
    rw [hc] at hi
    exact hi.quiet rfl rfl (by rintro ⟨⟩) (by rintro f ⟨⟩) (by rintro f ⟨⟩) (by simp)
  | closeFail hc | exit hc =>
    rw [hc] at hi
    refine hi.keep rfl id (fun _ => by rintro f ⟨⟩) (by rintro f ⟨⟩) ?_ (by decide)
    intro e hw
    rcases hw with h | h | h <;> cases h
    simp [Wrote]
  | childExit hc =>
    rw [hc] at hi
    exact hi.quiet rfl rfl id (by rintro f ⟨⟩) (by rintro f ⟨⟩) (by decide)
  | writeIntr hc =>
    exact hi.keep rfl id id (fun _ => id) (fun _ => id) (by decide)
  | @write e hc =>
    rw [hc] at hi hchild
    have hfile : isFailWrite (c.childTab.file S.pfail.wr) = true := isFailWrite_iff.mpr (Sole.here hchild)
    simp only [hfile, if_true]
    exact hi.write

theorem inv_step (hf : AtFork S.startup t₀ S.pipes S.pfail t) (h3 : 3 ≤ S.pfail.wr) (hstale : ¬ Stale S)
    {es : List Event} {c c' : Sys φ} {ev : Event} (hi : Inv S t es c) (h : step S c ev = some c') :
    Inv S t (es ++ [ev]) c' :=
  ⟨parentTab_step hi.tab h, childOk_moves hf h3 hstale hi.child (step_moves h),
    parentOk_moves hi.child hi.parent (step_moves h)⟩

/-! ## Runs with a stale target -/

/-- The child can neither report nor exec. -/
def MuteChild (S : Setup φ) (t : FdTab φ) : ChildPc φ → FdTab φ → Prop
  | .plumb todo, u => ∃ before, plumbing S = before ++ todo ∧ u = before.foldl (fun u f => f u) t
  | .fcntl, u => u.get S.pfail.wr = none
  | .failing _, u => u.get S.pfail.wr = none
  | .closing _, _ => True
  | .exiting _, _ => True
  | .exited (some _), u => ¬ HoldsWrite u
  | _, _ => False

/-- The parent hears nothing but the end of the file. -/
def Silence : ParentPc → Prop
  | .closeWrite => True
  | .reading got => got = []
  | .closing r => r = .eof
  | .finished r => r = .eof
  | .reaping _ => False

structure StaleInv (S : Setup φ) (t : FdTab φ) (c : Sys φ) : Prop where
  tab : c.parentTab = parentTabAt S t c.parent
  child : MuteChild S t c.child c.childTab
  content : c.content = []
  parent : Silence c.parent

theorem staleInv_step (hf : AtFork S.startup t₀ S.pipes S.pfail t) (h3 : 3 ≤ S.pfail.wr) (hstale : Stale S)
    {c c' : Sys φ} {ev : Event} (hi : StaleInv S t c) (h : step S c ev = some c') : StaleInv S t c' := by
  have htab := parentTab_step hi.tab h
  obtain ⟨-, hchild, hcontent, hparent⟩ := hi
  have hclosed : c.child = .plumb [] → c.childTab.get S.pfail.wr = none := by
    intro hc
    rw [hc] at hchild
    obtain ⟨before, hb, hu⟩ := hchild
    rw [List.append_nil] at hb
    rw [hu, ← hb]
    exact stale_closed hf h3 hstale
  cases step_moves h with
  | closeWrite hp => exact ⟨htab, hchild, hcontent, rfl⟩
  | finish hp =>
    rw [hp] at hparent
    exact ⟨htab, hchild, hcontent, hparent⟩
  | eof hp => exact ⟨htab, hchild, hcontent, rfl⟩
  | short hp hgot =>
    rw [hp] at hparent
    exact absurd hparent hgot
  | data hp hpos hle hlen | reply hp hpos hle hlen =>
    rw [hcontent] at hlen
    exact absurd hpos (by simpa using hlen)
  | readIntr | writeIntr => exact ⟨htab, hchild, hcontent, hparent⟩
  | waitIntr hp | reap hp =>
    rw [hp] at hparent
    exact hparent.elim
  | @plumb f todo hc =>
    rw [hc] at hchild
    obtain ⟨before, hb, hu⟩ := hchild
    refine ⟨htab, ⟨before ++ [f], by rw [hb, List.append_assoc]; rfl, ?_⟩, hcontent, hparent⟩
    rw [List.foldl_append, ← hu]
    rfl
  | closeFail hc => exact ⟨htab, trivial, hcontent, hparent⟩
  | exit hc => exact ⟨htab, not_holds_empty _, hcontent, hparent⟩
  | chdir hc | chdirFails hc => exact ⟨htab, hclosed hc, hcontent, hparent⟩
  | fcntl hc ht =>
    rw [hc] at hchild
    rw [Table.setCloexec, show c.childTab.get S.pfail.wr = none from hchild] at ht
    cases ht
  | fcntlClosed hc | fcntlFails hc =>
    rw [hc] at hchild
    exact ⟨htab, hchild, hcontent, hparent⟩
  | exec hc | execFails hc | childExit hc =>
    rw [hc] at hchild
    exact hchild.elim
  | write hc =>
    rw [hc] at hchild
    have hfile : c.childTab.file S.pfail.wr = none := by
      rw [Table.file, show c.childTab.get S.pfail.wr = none from hchild]
      rfl
    refine ⟨htab, trivial, ?_, hparent⟩
    simp only [hfile, isFailWrite, Bool.false_eq_true, if_false]
    exact hcontent

/-! ## A run ends -/

/-- A step the two take by themselves, not interrupted. -/
def CanStep (S : Setup φ) (c : Sys φ) : Prop :=
  ∃ ev : Event, ev.interrupted = false ∧ ev ≠ .childExit ∧ (step S c ev).isSome = true

/-- The child is done with the fail pipe. -/
def Settled (pc : ChildPc φ) : Prop := pc = .running ∨ ∃ f, pc = .exited f ∨ pc = .reaped f

theorem canStep_child {c : Sys φ} (h : ¬ Settled c.child) : CanStep S c := by
  cases hc : c.child with
  | plumb todo =>
    cases todo with
    | nil => exact ⟨.chdir none, rfl, by decide, by simp [step, hc]⟩
    | cons f todo => exact ⟨.child, rfl, by decide, by simp [step, childStep, hc]⟩
  | fcntl =>
    refine ⟨.fcntl none, rfl, by decide, ?_⟩
    cases ht : c.childTab.setCloexec S.pfail.wr <;> simp [step, hc, ht]
  | exec => exact ⟨.exec none, rfl, by decide, by simp [step, hc]⟩
  | failing e => exact ⟨.write false, rfl, by decide, by simp [step, hc]⟩
  | closing e => exact ⟨.child, rfl, by decide, by simp [step, childStep, hc]⟩
  | exiting e => exact ⟨.child, rfl, by decide, by simp [step, childStep, hc]⟩
  | running => exact absurd (Or.inl hc) h
  | exited f => exact absurd (Or.inr ⟨f, Or.inl hc⟩) h
  | reaped f => exact absurd (Or.inr ⟨f, Or.inr hc⟩) h

/-- Nobody is stuck: a parent that waits for a read has bytes, the end of the file, or a
    child that still has steps to take. -/
theorem canStep_of_unfinished {c : Sys φ} (hparent : c.parent ≠ .closeWrite → ¬ HoldsWrite c.parentTab)
    (hchild : Settled c.child → ¬ HoldsWrite c.childTab)
    (hgot : ∀ got, c.parent = .reading got → got.length < 4)
    (hwrote : ∀ r, c.parent = .reaping r → ∃ e, Wrote e c.child) (hfin : ∀ r, c.parent ≠ .finished r) :
    CanStep S c := by
  cases hp : c.parent with
  | closeWrite => exact ⟨.parent, rfl, by decide, by simp [step, hp]⟩
  | closing r => exact ⟨.parent, rfl, by decide, by simp [step, hp]⟩
  | finished r => exact absurd hp (hfin r)
  | reaping r =>
    obtain ⟨e, hc | hc | hc⟩ := hwrote r hp
    · exact canStep_child (by rintro (h | ⟨f, h | h⟩) <;> rw [hc] at h <;> cases h)
    · exact canStep_child (by rintro (h | ⟨f, h | h⟩) <;> rw [hc] at h <;> cases h)
    · exact ⟨.waitpid false, rfl, by decide, by simp [step, hp, hc]⟩
  | reading got =>
    by_cases hempty : c.content = []
    · by_cases hw : HoldsWrite c.childTab
      · exact canStep_child fun h => hchild h hw
      · refine ⟨.read 0, rfl, by decide, ?_⟩
        simp only [step, hp]
        rw [readStep, if_pos hempty, if_pos ⟨rfl, hparent (by simp [hp]), hw⟩]
        rfl
    · refine ⟨.read 1, rfl, by decide, ?_⟩
      have hlen := hgot got hp
      have hpos := List.length_pos_iff.mpr hempty
      simp only [step, hp]
      rw [readStep, if_neg hempty, if_pos ⟨by decide, by omega, by omega⟩]
      rfl

/-- How many steps are left at most: the parent's and the child's. -/
def stepsLeft (c : Sys φ) : Nat :=
  (match c.parent with
    | .closeWrite => 8
    | .reading got => 3 + (4 - got.length)
    | .reaping _ => 2
    | .closing _ => 1
    | .finished _ => 0) +
  (match c.child with
    | .plumb todo => 7 + todo.length
    | .fcntl => 6
    | .exec => 5
    | .failing _ => 4
    | .closing _ => 3
    | .exiting _ => 2
    | .running => 2
    | .exited _ => 1
    | .reaped _ => 0)

theorem stepsLeft_down {c c' : Sys φ} {ev : Event} (h : step S c ev = some c') :
    stepsLeft c' + (if !ev.interrupted then 1 else 0) ≤ stepsLeft c := by
  have hmoves := step_moves h
  clear h
  cases hmoves with
  | closeWrite hp | finish hp | eof hp | short hp | readIntr hp | waitIntr hp | reply hp =>
    simp [stepsLeft, hp, Event.interrupted] <;> omega
  | data hp hpos hle hlen hne =>
    simp [stepsLeft, hp, Event.interrupted, Nat.min_eq_left hlen]
    omega
  | reap hp hc => simp [stepsLeft, hp, hc, Event.interrupted]
  | plumb hc =>
    simp only [stepsLeft, hc, Event.interrupted, List.length_cons, Bool.not_false, if_true]
    omega
  | closeFail hc | exit hc | chdir hc | chdirFails hc | fcntl hc | fcntlClosed hc | fcntlFails hc | exec hc
  | execFails hc | writeIntr hc | write hc | childExit hc => simp [stepsLeft, hc, Event.interrupted]

/-! ## When the handshake is right -/

theorem result_eof (S : Setup φ) : ∃ info, result S .eof = .ok info := ⟨_, rfl⟩

theorem result_errno (S : Setup φ) (e : Int) :
    result S (.errno e) = .error ("child exec failed: " ++ S.kernel.strerror e) := rfl

theorem ends_closed (S : Setup φ) (t : FdTab φ) (e : Int) :
    (parentTabAt S t (.finished (.errno e))).get S.pfail.rd = none ∧
      (parentTabAt S t (.finished (.errno e))).get S.pfail.wr = none := by
  simp only [parentTabAt, closeAfter, get_closeFd, if_true, true_and, ite_self]

/-- After a reply that fits what the child did, all is well unless a `waitpid` was
    interrupted. -/
theorem handshakeOk_iff {es : List Event} {c : Sys φ} {r : Reply} (hi : Inv S t es c) (hfin : c.parent = .finished r) :
    HandshakeOk S c r ↔ .waitpid true ∉ es := by
  have hrep : Replied es c.child r := by
    have := hi.parent
    rwa [hfin] at this
  rcases hrep with ⟨rfl, hexec, hno⟩ | ⟨e, rfl, h⟩
  · refine iff_of_true ⟨iff_of_true (result_eof S) hexec, ?_⟩ hno
    intro msg hmsg
    obtain ⟨info, hok⟩ := result_eof S
    rw [hok] at hmsg
    cases hmsg
  · have hthrow : ¬ ∃ info, result S (.errno e.toInt) = .ok info := by
      intro hx
      obtain ⟨info, h⟩ := hx
      rw [result_errno] at h
      cases h
    have hclosed := ends_closed S t e.toInt
    rw [← hfin, ← hi.tab] at hclosed
    rcases h with ⟨hc, hno⟩ | ⟨hwrote, hin⟩
    · refine iff_of_true ⟨iff_of_false hthrow (by simp [hc, ChildPc.execed]), ?_⟩ hno
      intro msg hmsg
      rw [result_errno] at hmsg
      exact ⟨e, hc, (Except.error.inj hmsg).symm, hclosed⟩
    · refine iff_of_false ?_ (not_not.mpr hin)
      intro hok
      obtain ⟨e', hc, -⟩ := hok.throws _ (result_errno S _)
      rcases hwrote with h | h | h <;> rw [hc] at h <;> cases h

theorem not_handshakeOk {c : Sys φ} {r : Reply} (hi : StaleInv S t c) (hfin : c.parent = .finished r) :
    ¬ HandshakeOk S c r := by
  intro hok
  have hr : r = .eof := by
    have := hi.parent
    rwa [hfin] at this
  subst hr
  have hexec := hok.returns.mp (result_eof S)
  have hchild := hi.child
  unfold ChildPc.execed at hexec
  split at hexec
  · rename_i hc
    rw [hc] at hchild
    exact hchild
  · rename_i hc
    rw [hc] at hchild
    exact hchild
  · rename_i hc
    rw [hc] at hchild
    exact hchild
  · cases hexec

theorem parent_no_write {c : Sys φ} (hf : AtFork S.startup t₀ S.pipes S.pfail t)
    (htab : c.parentTab = parentTabAt S t c.parent) (hfin : ∀ r, c.parent ≠ .finished r)
    (hp : c.parent ≠ .closeWrite) : ¬ HoldsWrite c.parentTab := by
  have hclosed : parentTabAt S t c.parent = closeFd t S.pfail.wr := by
    unfold parentTabAt
    split
    · exact absurd ‹_› hp
    · exact absurd ‹_› (hfin _)
    · rfl
  rw [htab, hclosed]
  intro hx
  obtain ⟨x, hx⟩ := hx
  rw [Table.file, get_closeFd] at hx
  split at hx
  · cases hx
  · exact absurd (hf.sole.only x hx) ‹_›

theorem canStep_inv {es : List Event} {c : Sys φ} (hf : AtFork S.startup t₀ S.pipes S.pfail t) (hi : Inv S t es c)
    (hfin : ∀ r, c.parent ≠ .finished r) : CanStep S c := by
  refine canStep_of_unfinished (parent_no_write hf hi.tab hfin) ?_ ?_ ?_ hfin
  · intro hs
    have hchild := hi.child
    rcases hs with hc | ⟨f, hc | hc⟩ <;> rw [hc] at hchild <;> exact hchild
  · intro got hp
    have hparent := hi.parent
    rw [hp] at hparent
    exact hparent.2.1
  · intro r hp
    have hparent := hi.parent
    rw [hp] at hparent
    obtain ⟨⟨e, -, hwrote⟩, -⟩ := hparent
    exact ⟨e, hwrote⟩

theorem canStep_staleInv {c : Sys φ} (hf : AtFork S.startup t₀ S.pipes S.pfail t) (hi : StaleInv S t c)
    (hfin : ∀ r, c.parent ≠ .finished r) : CanStep S c := by
  refine canStep_of_unfinished (parent_no_write hf hi.tab hfin) ?_ ?_ ?_ hfin
  · intro hs
    have hchild := hi.child
    rcases hs with hc | ⟨f, hc | hc⟩ <;> rw [hc] at hchild
    · exact hchild.elim
    · cases f with
      | none => exact hchild.elim
      | some e => exact hchild
    · exact hchild.elim
  · intro got hp
    have hparent := hi.parent
    rw [hp] at hparent
    rw [show got = [] from hparent]
    decide
  · intro r hp
    have hparent := hi.parent
    rw [hp] at hparent
    exact hparent.elim

theorem staleInv_start (S : Setup φ) (t : FdTab φ) : StaleInv S t (start S t) :=
  ⟨rfl, ⟨[], rfl, rfl⟩, rfl, trivial⟩

/-- A run whose parent is done is as it should be exactly when no redirect target is the
    number of the fail pipe's write end and no `waitpid` was interrupted. A parent that
    is not done can go on, and no run has more than 21 steps besides interruptions. -/
theorem handshake_iff (S : Setup φ) (t₀ : Table φ) (t : FdTab φ) (es : List Event) (c : Sys φ)
    (hforks : Forks S t₀ t) (h3 : 3 ≤ S.pfail.wr) (hrun : run S t es = some c) :
    (∀ r, c.parent = .finished r → (HandshakeOk S c r ↔ ¬ Stale S ∧ .waitpid true ∉ es)) ∧
      ((∀ r, c.parent ≠ .finished r) → CanStep S c) ∧
      es.countP (fun ev => !ev.interrupted) ≤ 21 := by
  have hf := hforks.atFork
  have hbound := Runs.exec_measure (I := fun _ => True) (μ := stepsLeft)
    (fun _ _ _ _ _ => trivial) (fun _ _ _ _ h => stepsLeft_down h) trivial hrun
  have h21 : stepsLeft (start S t) = 21 := rfl
  rw [h21] at hbound
  by_cases hstale : Stale S
  · have hi : StaleInv S t c :=
      Runs.exec_invariant (fun _ _ _ hi h => staleInv_step hf h3 hstale hi h) (staleInv_start S t) hrun
    exact ⟨fun r hfin => iff_of_false (not_handshakeOk hi hfin) fun h => h.1 hstale,
      canStep_staleInv hf hi, by omega⟩
  · have hi : Inv S t es c :=
      Runs.exec_history (fun _ _ _ _ hi h => inv_step hf h3 hstale hi h) (inv_start hf) hrun
    refine ⟨?_, canStep_inv hf hi, by omega⟩
    intro r hfin
    rw [handshakeOk_iff hi hfin]
    exact ⟨fun h => ⟨hstale, h⟩, And.right⟩

/-- Every stream inherited, and the fail pipe at 7 and 6. -/
def inheritAll : Setup Nat where
  kernel := plainKernel
  startup := { inheritStdin := true, inheritStdout := true, inheritStderr := true }
  pipes := ⟨{}, {}, {}⟩
  pfail := ⟨7, 6⟩
  pid := 100
  errno := 0

def inheritAllTab : FdTab Nat :=
  (((callerTable false).map .old).put 7 ⟨.pipe .fail .read, true⟩).put 6 ⟨.pipe .fail .write, true⟩

/-- The child's `exec` fails with `ENOENT`, and the parent reads that in two pieces. -/
def execFails (intr : Bool) : List Event :=
  [.child, .child, .child, .child, .child, .child, .chdir none, .fcntl none, .exec (some 2), .write false, .parent,
    .read 1, .readIntr, .read 3, .child, .child, .waitpid intr, .parent]

theorem not_stale_inheritAll : ¬ Stale inheritAll := by
  rintro ⟨skip, r, h | h | h, hskip, -⟩ <;> cases h <;> cases hskip

theorem handshake_execFails :
    ∃ c, run inheritAll inheritAllTab (execFails false) = some c ∧ HandshakeOk inheritAll c (.errno 2) :=
  ⟨_, rfl, ((handshake_iff inheritAll (callerTable false) inheritAllTab (execFails false) _
    ⟨_, _, _, rfl, rfl, rfl, rfl⟩ (by decide) rfl).1 (.errno 2) rfl).mpr
    ⟨not_stale_inheritAll, by decide⟩⟩

/-- The `waitpid` is interrupted: the parent throws and the child is a zombie. -/
theorem interrupted_waitpid_leaves_zombie :
    ¬ ∀ (S : Setup Nat) (t₀ : Table Nat) (t : FdTab Nat) (es : List Event) (c : Sys Nat) (r : Reply),
      Forks S t₀ t → 3 ≤ S.pfail.wr → run S t es = some c → c.parent = .finished r → HandshakeOk S c r := by
  intro hall
  have hok := hall inheritAll (callerTable false) inheritAllTab (execFails true) _ (.errno 2)
    ⟨_, _, _, rfl, rfl, rfl, rfl⟩ (by decide) rfl rfl
  obtain ⟨e, hc, -⟩ := hok.throws _ rfl
  cases hc

end CovProcess.Unix
