import GoPmem.Init.PmallocInit

/-!
# GoPmem.Init.Concurrent — concurrent calls of `PmallocInit`

Each thread of `ι` runs one call of `PmallocInit`, in steps that interleave in any order: the
argument checks, the CAS of `initState` from `initNotDone` to `initOngoing`, the three parts of the
body (`initGrow`, `initHeader`, `initFinish`, as in `pmallocInit`), and the closing store of
`initState`. The grow step may get any result from `h.sysAlloc`; a panic ends the run.

* `InitStep`, `InitReach`: one step of one thread, and the states a run reaches.
* `InitMove`: what a step does to the calls' positions and to `initState` — `InitStep.move` says it
  once. `InitShape`: the three shapes of a reachable state, one per value of `initState`; every
  move keeps it (`InitShape.move`).
* `InitReach.of_pmallocInit`: a call that runs alone ends where the sequential `pmallocInit` does.
* `pmallocInit_concurrent`: at most one call in the body, at most one non-nil return, a failed
  check or lost CAS changes nothing, no call outside the body writes `pmemInfo`, the heap or the
  mappings, and once every call has returned `initState` is `initDone` if one returned non-nil and
  `initNotDone` otherwise.
-/

namespace GoPmem

/-- Where a call of `PmallocInit` is: before the argument checks, before the CAS, in one of the
three parts of the body, before its closing store of `initState`, or returned. -/
inductive InitPc
  | start
  | cas
  | grow
  | header (M : Nat)
  | finish (M : Nat)
  | closing (state : Nat) (ret : Option Nat)
  | returned (ret : Option Nat)
  deriving DecidableEq, Repr

/-- A call is in the body from the CAS it won to its closing store. -/
def InitPc.inBody : InitPc → Bool
  | .grow | .header _ | .finish _ | .closing _ _ => true
  | _ => false

/-- A call about to close stores `initDone` exactly when it returns non-nil. -/
def InitPc.ClosingOk : InitPc → Prop
  | .closing st ret => (st = initNotDone ∧ ret = none) ∨ (st = initDone ∧ ret.isSome)
  | _ => True

theorem InitPc.closingOk_of_inBody {b : InitPc} (h : b.inBody = false) : b.ClosingOk := by
  cases b <;> simp [InitPc.inBody, InitPc.ClosingOk] at h ⊢

/-- A call of `PmallocInit`: its arguments and where it is. -/
structure InitCall where
  fname : String
  size : Int
  offset : Int
  pc : InitPc

/-- Concurrent calls, one per thread of `ι`, over the shared world. -/
structure InitProc (ι : Type) where
  w : World
  calls : ι → InitCall

variable {ι : Type} [DecidableEq ι]

/-- Thread `i` moves to `pc`, and the world becomes `w`. -/
def InitProc.set (p : InitProc ι) (i : ι) (w : World) (pc : InitPc) : InitProc ι :=
  ⟨w, Function.update p.calls i { p.calls i with pc := pc }⟩

@[simp] theorem InitProc.set_w (p : InitProc ι) (i : ι) (w : World) (pc : InitPc) :
    (p.set i w pc).w = w := rfl

@[simp] theorem InitProc.set_calls_same (p : InitProc ι) (i : ι) (w : World) (pc : InitPc) :
    (p.set i w pc).calls i = { p.calls i with pc := pc } := by
  simp [InitProc.set]

theorem InitProc.set_pc_same {p : InitProc ι} {i : ι} {w : World} {pc : InitPc} :
    ((p.set i w pc).calls i).pc = pc := by
  simp

theorem InitProc.set_set (p : InitProc ι) (i : ι) (w : World) (pc : InitPc) (w' : World)
    (pc' : InitPc) : (p.set i w pc).set i w' pc' = p.set i w' pc' := by
  simp [InitProc.set]

theorem InitProc.set_pc (p : InitProc ι) (i j : ι) (w : World) (pc : InitPc) :
    ((p.set i w pc).calls j).pc = Function.update (fun k => (p.calls k).pc) i pc j := by
  by_cases h : j = i
  · subst h; simp [InitProc.set]
  · simp [InitProc.set, Function.update_noteq h]

/-- One step of thread `i`. -/
inductive InitStep : ι → InitProc ι → InitProc ι → Prop
  | argsFail {i p} : (p.calls i).pc = .start →
      initArgsOk (p.calls i).size (p.calls i).offset = false →
      InitStep i p (p.set i p.w (.returned none))
  | argsOk {i p} : (p.calls i).pc = .start →
      initArgsOk (p.calls i).size (p.calls i).offset = true → InitStep i p (p.set i p.w .cas)
  | casFail {i p} : (p.calls i).pc = .cas → p.w.initState ≠ initNotDone →
      InitStep i p (p.set i p.w (.returned none))
  | casOk {i p} : (p.calls i).pc = .cas → p.w.initState = initNotDone →
      InitStep i p (p.set i { p.w with initState := initOngoing } .grow)
  | growFail {i p r w} : (p.calls i).pc = .grow →
      initGrow (p.calls i).fname (p.calls i).size (p.calls i).offset r p.w = (w, none) →
      InitStep i p (p.set i w (.closing initNotDone none))
  | growOk {i p r w M} : (p.calls i).pc = .grow →
      initGrow (p.calls i).fname (p.calls i).size (p.calls i).offset r p.w = (w, some M) →
      InitStep i p (p.set i w (.header M))
  | headerFail {i p w M} : (p.calls i).pc = .header M →
      initHeader (p.calls i).size (p.calls i).offset M p.w = (w, false) →
      InitStep i p (p.set i w (.closing initNotDone none))
  | headerOk {i p w M} : (p.calls i).pc = .header M →
      initHeader (p.calls i).size (p.calls i).offset M p.w = (w, true) →
      InitStep i p (p.set i w (.finish M))
  | finish {i p w M} : (p.calls i).pc = .finish M →
      initFinish (p.calls i).size (p.calls i).offset M p.w = .ok w →
      InitStep i p (p.set i w (.closing initDone (some M)))
  | close {i p st ret} : (p.calls i).pc = .closing st ret →
      InitStep i p (p.set i { p.w with initState := st } (.returned ret))

/-- `InitReach p₀ p`: a run from `p₀` reaches `p`, any thread taking each step. -/
inductive InitReach (p₀ : InitProc ι) : InitProc ι → Prop
  | init : InitReach p₀ p₀
  | step {i p q} : InitReach p₀ p → InitStep i p q → InitReach p₀ q

/-! ## What a step does -/

/-- What a step does to the position of the thread that moves and to `initState`: a move outside
the body, a move inside it, the CAS that enters it, or the closing store that leaves it. -/
inductive InitMove : InitPc → Nat → InitPc → Nat → Prop
  | outside {a b s} : a.inBody = false → b.inBody = false → (∀ M, a ≠ .returned (some M)) →
      (∀ M, b ≠ .returned (some M)) → InitMove a s b s
  | inside {a b s} : a.inBody = true → b.inBody = true → b.ClosingOk → InitMove a s b s
  | acquire : InitMove .cas initNotDone .grow initOngoing
  | release {st ret s} : InitMove (.closing st ret) s (.returned ret) st

section Step

variable {i : ι} {p q : InitProc ι}

theorem initGrow_initState {fname : String} {size offset : Int} {r : Option (Nat × Nat)}
    {w w' : World} {ret : Option Nat} (h : initGrow fname size offset r w = (w', ret)) :
    w'.initState = w.initState := by
  cases ret with
  | none => exact (initGrow_none h).2.2.2
  | some M => exact (initGrow_some h).2.2.2.1

theorem initHeader_initState {size offset : Int} {M : Nat} {w w' : World} {b : Bool}
    (h : initHeader size offset M w = (w', b)) : w'.initState = w.initState := by
  cases b with
  | false => exact (initHeader_false h).2.2.2.2.2
  | true => exact (initHeader_true h).2.2.2

/-- **Inversion of a step**: the thread that moves makes an `InitMove`, the others stay. -/
theorem InitStep.move (h : InitStep i p q) :
    InitMove (p.calls i).pc p.w.initState (q.calls i).pc q.w.initState ∧
      ∀ j, j ≠ i → (q.calls j).pc = (p.calls j).pc := by
  have frame : ∀ w pc j, j ≠ i → ((p.set i w pc).calls j).pc = (p.calls j).pc := fun w pc j hj => by
    rw [InitProc.set_pc, Function.update_noteq hj]
  have self : ∀ w pc, ((p.set i w pc).calls i).pc = pc := fun w pc => by
    rw [InitProc.set_pc, Function.update_same]
  cases h with
  | argsFail hpc _ | casFail hpc _ =>
    exact ⟨by rw [self, hpc]; exact .outside rfl rfl (by simp) (by simp), frame _ _⟩
  | argsOk hpc _ => exact ⟨by rw [self, hpc]; exact .outside rfl rfl (by simp) (by simp), frame _ _⟩
  | casOk hpc hs => exact ⟨by rw [self, hpc, hs]; exact .acquire, frame _ _⟩
  | growFail hpc hg =>
    exact ⟨by rw [self, hpc, InitProc.set_w, initGrow_initState hg]
              exact .inside rfl rfl (.inl ⟨rfl, rfl⟩), frame _ _⟩
  | growOk hpc hg =>
    exact ⟨by rw [self, hpc, InitProc.set_w, initGrow_initState hg]; exact .inside rfl rfl trivial,
      frame _ _⟩
  | headerFail hpc hh =>
    exact ⟨by rw [self, hpc, InitProc.set_w, initHeader_initState hh]
              exact .inside rfl rfl (.inl ⟨rfl, rfl⟩), frame _ _⟩
  | headerOk hpc hh =>
    exact ⟨by rw [self, hpc, InitProc.set_w, initHeader_initState hh]; exact .inside rfl rfl trivial,
      frame _ _⟩
  | finish hpc hf =>
    exact ⟨by rw [self, hpc, InitProc.set_w, (initFinish_ok hf).2.2.2]
              exact .inside rfl rfl (.inr ⟨rfl, rfl⟩), frame _ _⟩
  | close hpc => exact ⟨by rw [self, hpc]; exact .release, frame _ _⟩

end Step

/-! ## The shapes of reachable states -/

/-- The positions of the calls and the value of `initState` in a reachable state: `initNotDone`
with no call in the body and none returned non-nil; `initOngoing` with exactly one call in the
body, none returned non-nil, and a call about to close storing `initDone` exactly when it returns
non-nil; `initDone` with no call in the body and exactly one returned non-nil. -/
def InitShape (pcs : ι → InitPc) (s : Nat) : Prop :=
  (s = initNotDone ∧ (∀ j, (pcs j).inBody = false) ∧ ∀ j M, pcs j ≠ .returned (some M)) ∨
  (s = initOngoing ∧ (∃ i, (pcs i).inBody = true ∧ ∀ j, (pcs j).inBody = true → j = i) ∧
    (∀ j M, pcs j ≠ .returned (some M)) ∧ ∀ j, (pcs j).ClosingOk) ∨
  (s = initDone ∧ (∀ j, (pcs j).inBody = false) ∧
    ∃ i M, pcs i = .returned (some M) ∧ ∀ j M', pcs j = .returned (some M') → j = i)

theorem forall_update {pcs : ι → InitPc} {i : ι} {b : InitPc} {P : ι → InitPc → Prop}
    (hi : P i b) (hj : ∀ j, j ≠ i → P j (pcs j)) : ∀ j, P j (Function.update pcs i b j) := by
  intro j
  by_cases h : j = i
  · subst h; rwa [Function.update_same]
  · rw [Function.update_noteq h]; exact hj j h

/-- Every move keeps the shape of a reachable state. -/
theorem InitShape.move {pcs : ι → InitPc} {s s' : Nat} {i : ι} {b : InitPc}
    (h : InitShape pcs s) (hm : InitMove (pcs i) s b s') :
    InitShape (Function.update pcs i b) s' := by
  have hne : ∀ {j}, j ≠ i → Function.update pcs i b j = pcs j := fun h => Function.update_noteq h _ _
  generalize hpi : pcs i = a at hm
  cases hm with
  | outside ha hb hna hnb =>
    rcases h with ⟨hs, hbody, hret⟩ | ⟨hs, ⟨k, hk, huniq⟩, hret, hcl⟩ | ⟨hs, hbody, k, M, hk, huniq⟩
    · exact .inl ⟨hs, forall_update (P := fun _ x => x.inBody = false) hb fun j _ => hbody j,
        forall_update (P := fun _ x => ∀ M, x ≠ .returned (some M)) hnb fun j _ => hret j⟩
    · have hki : k ≠ i := fun e => by subst e; simp [hpi, ha] at hk
      refine .inr (.inl ⟨hs, ⟨k, by rw [hne hki]; exact hk,
        forall_update (P := fun j x => x.inBody = true → j = k) (fun e => by simp [hb] at e)
          fun j _ => huniq j⟩,
        forall_update (P := fun _ x => ∀ M, x ≠ .returned (some M)) hnb fun j _ => hret j,
        forall_update (P := fun _ x => x.ClosingOk) (InitPc.closingOk_of_inBody hb) fun j _ => hcl j⟩)
    · have hki : k ≠ i := fun e => by subst e; rw [hpi] at hk; exact hna M hk
      exact .inr (.inr ⟨hs, forall_update (P := fun _ x => x.inBody = false) hb fun j _ => hbody j,
        k, M, by rw [hne hki]; exact hk,
        forall_update (P := fun j x => ∀ M', x = .returned (some M') → j = k)
          (fun M' e => absurd e (hnb M')) fun j _ => huniq j⟩)
  | inside ha hb hcl =>
    rcases h with ⟨-, hbody, -⟩ | ⟨hs, ⟨k, -, huniq⟩, hret, hcl'⟩ | ⟨-, hbody, -⟩
    · simp [← hpi, hbody i] at ha
    · have hik : i = k := huniq i (by rw [hpi]; exact ha)
      subst hik
      refine .inr (.inl ⟨hs, ⟨i, by rw [Function.update_same]; exact hb,
        forall_update (P := fun j x => x.inBody = true → j = i) (fun _ => rfl) fun j _ => huniq j⟩,
        forall_update (P := fun _ x => ∀ M, x ≠ .returned (some M))
          (fun M e => by simp [e, InitPc.inBody] at hb) fun j _ => hret j,
        forall_update (P := fun _ x => x.ClosingOk) hcl fun j _ => hcl' j⟩)
    · simp [← hpi, hbody i] at ha
  | acquire =>
    rcases h with ⟨-, hbody, hret⟩ | ⟨hs, -⟩ | ⟨hs, -⟩
    · refine .inr (.inl ⟨rfl, ⟨i, by rw [Function.update_same]; rfl,
        forall_update (P := fun j x => x.inBody = true → j = i) (fun _ => rfl)
          fun j _ e => by simp [hbody j] at e⟩,
        forall_update (P := fun _ x => ∀ M, x ≠ .returned (some M)) (fun _ e => by cases e)
          fun j _ => hret j,
        forall_update (P := fun _ x => x.ClosingOk) trivial fun j _ =>
          InitPc.closingOk_of_inBody (hbody j)⟩)
    · simp [initNotDone, initOngoing] at hs
    · simp [initNotDone, initDone] at hs
  | @release st ret =>
    rcases h with ⟨-, hbody, -⟩ | ⟨hs, ⟨k, -, huniq⟩, hret, hcl⟩ | ⟨-, hbody, -⟩
    · simpa [hpi, InitPc.inBody] using hbody i
    · have hik : i = k := huniq i (by rw [hpi]; rfl)
      subst hik
      have hout : ∀ j, j ≠ i → (pcs j).inBody = false := fun j hj => by
        by_contra e; exact hj (huniq j (by simpa using e))
      have hcli := hcl i
      rw [hpi] at hcli
      rcases hcli with ⟨rfl, rfl⟩ | ⟨rfl, hsome⟩
      · exact .inl ⟨rfl, forall_update (P := fun _ x => x.inBody = false) rfl hout,
          forall_update (P := fun _ x => ∀ M, x ≠ .returned (some M)) (fun _ e => by cases e)
            fun j _ => hret j⟩
      · obtain ⟨M, rfl⟩ := Option.isSome_iff_exists.1 hsome
        exact .inr (.inr ⟨rfl, forall_update (P := fun _ x => x.inBody = false) rfl hout, i, M,
          Function.update_same _ _ _,
          forall_update (P := fun j x => ∀ M', x = .returned (some M') → j = i) (fun _ _ => rfl)
            fun j _ M' e => absurd e (hret j M')⟩)
    · simpa [hpi, InitPc.inBody] using hbody i

/-! ## Runs -/

section Run

variable {p₀ p q : InitProc ι} {i : ι}

/-- **Run lemma**: every state a run reaches from a state of the right shape has that shape. -/
theorem InitReach.shape (h₀ : InitShape (fun j => (p₀.calls j).pc) p₀.w.initState)
    (hp : InitReach p₀ p) : InitShape (fun j => (p.calls j).pc) p.w.initState := by
  induction hp with
  | init => exact h₀
  | step _ hs ih =>
    obtain ⟨hm, hframe⟩ := hs.move
    rw [Function.eq_update_iff.2 ⟨rfl, hframe⟩]
    exact ih.move hm

omit [DecidableEq ι] in
theorem InitShape.inBody_unique {pcs : ι → InitPc} {s : Nat} (h : InitShape pcs s) {i j : ι}
    (hi : (pcs i).inBody = true) (hj : (pcs j).inBody = true) : i = j := by
  rcases h with ⟨-, hbody, -⟩ | ⟨-, ⟨k, -, hu⟩, -⟩ | ⟨-, hbody, -⟩
  · simp [hbody i] at hi
  · exact (hu i hi).trans (hu j hj).symm
  · simp [hbody i] at hi

omit [DecidableEq ι] in
theorem InitShape.returned_some_unique {pcs : ι → InitPc} {s : Nat} (h : InitShape pcs s)
    {i j : ι} {M M' : Nat} (hi : pcs i = .returned (some M)) (hj : pcs j = .returned (some M')) :
    i = j := by
  rcases h with ⟨-, -, hret⟩ | ⟨-, -, hret, -⟩ | ⟨-, -, k, -, -, hu⟩
  · exact absurd hi (hret i M)
  · exact absurd hi (hret i M)
  · exact (hu i M hi).trans (hu j M' hj).symm

omit [DecidableEq ι] in
/-- With every call returned, `initState` is `initDone` after a non-nil return and
`initNotDone` otherwise. -/
theorem InitShape.all_returned {pcs : ι → InitPc} {s : Nat} (h : InitShape pcs s)
    (hall : ∀ j, ∃ r, pcs j = .returned r) :
    (s = initDone ∧ ∃ i M, pcs i = .returned (some M)) ∨
      (s = initNotDone ∧ ∀ j, pcs j = .returned none) := by
  rcases h with ⟨hs, -, hret⟩ | ⟨-, ⟨k, hk, -⟩, -⟩ | ⟨hs, -, k, M, hk, -⟩
  · refine .inr ⟨hs, fun j => ?_⟩
    obtain ⟨r, hr⟩ := hall j
    cases r with
    | none => exact hr
    | some M => exact absurd hr (hret j M)
  · obtain ⟨r, hr⟩ := hall k
    simp [hr, InitPc.inBody] at hk
  · exact .inl ⟨hs, k, M, hk⟩

/-- Every step keeps the calls of the other threads. -/
theorem InitStep.calls_ne (h : InitStep i p q) : ∀ j, j ≠ i → q.calls j = p.calls j := by
  intro j hj
  cases h <;> simp [InitProc.set, Function.update_noteq hj]

/-- A step of a call outside the body changes nothing but `initState`, and one that returns (a
failed argument check or a lost CAS) changes nothing. -/
theorem InitStep.outside_body (h : InitStep i p q) (hb : (p.calls i).pc.inBody = false) :
    { q.w with initState := p.w.initState } = p.w ∧ ((q.calls i).pc = .returned none → q.w = p.w) := by
  cases h with
  | argsFail | casFail => exact ⟨rfl, fun _ => rfl⟩
  | argsOk | casOk => exact ⟨rfl, by simp⟩
  | growFail hpc | growOk hpc | headerFail hpc | headerOk hpc | finish hpc | close hpc =>
    simp [hpc, InitPc.inBody] at hb

end Run

/-! ## A call running alone -/

section Alone

variable {p : InitProc ι} {i : ι} {w w' : World} {pc pc' : InitPc}

theorem InitReach.step_self (h : InitReach p (p.set i w pc))
    (hs : InitStep i (p.set i w pc) ((p.set i w pc).set i w' pc')) : InitReach p (p.set i w' pc') := by
  rw [← InitProc.set_set p i w pc w' pc']
  exact h.step hs

/-- **Refinement**: a call that runs alone takes steps that end where the sequential
`pmallocInit` returns, with the same world and the same result. -/
theorem InitReach.of_pmallocInit {r : Option (Nat × Nat)} {ret : Option Nat}
    (hpc : (p.calls i).pc = .start)
    (h : pmallocInit (p.calls i).fname (p.calls i).size (p.calls i).offset r p.w = .ok (w', ret)) :
    InitReach p (p.set i w' (.returned ret)) := by
  rcases pmallocInit_exits h with ⟨ha, rfl, rfl⟩ | ⟨ha, hs, rfl, rfl⟩ | ⟨ha, hs, hbody⟩
  · exact .step .init (.argsFail hpc ha)
  · exact (InitReach.step .init (.argsOk hpc ha)).step_self (.casFail InitProc.set_pc_same hs)
  have r₂ : InitReach p (p.set i { p.w with initState := initOngoing } .grow) :=
    (InitReach.step .init (.argsOk hpc ha)).step_self (.casOk InitProc.set_pc_same hs)
  rcases hbody with ⟨w₁, hg, rfl, rfl⟩ | ⟨w₁, M, w₂, hg, hh, rfl, rfl⟩ |
    ⟨w₁, M, w₂, w₃, hg, hh, hf, rfl, rfl⟩
  · exact (r₂.step_self (.growFail InitProc.set_pc_same (by simpa using hg))).step_self
      (.close InitProc.set_pc_same)
  · have r₃ := r₂.step_self (.growOk InitProc.set_pc_same (by simpa using hg))
    exact (r₃.step_self (.headerFail InitProc.set_pc_same (by simpa using hh))).step_self
      (.close InitProc.set_pc_same)
  · have r₄ := (r₂.step_self (.growOk InitProc.set_pc_same (by simpa using hg))).step_self
      (.headerOk InitProc.set_pc_same (by simpa using hh))
    exact (r₄.step_self (.finish InitProc.set_pc_same (by simpa using hf))).step_self
      (.close InitProc.set_pc_same)

end Alone

/-- **Concurrent `PmallocInit`.** From a state with `initState = initNotDone` and every call
before its argument checks, in every state a run reaches: at most one call is in the body; at most
one call has returned non-nil; a step of a call outside the body changes nothing but `initState`,
and one that returns nil (a failed check or a lost CAS) changes nothing at all; and once every call
has returned, `initState` is `initDone` if one of them returned non-nil and `initNotDone` if all
returned nil. -/
theorem pmallocInit_concurrent (p₀ : InitProc ι) (h₀ : p₀.w.initState = initNotDone)
    (hstart : ∀ j, (p₀.calls j).pc = .start) {p : InitProc ι} (hp : InitReach p₀ p) :
    (∀ i j, (p.calls i).pc.inBody = true → (p.calls j).pc.inBody = true → i = j) ∧
    (∀ i j M M', (p.calls i).pc = .returned (some M) → (p.calls j).pc = .returned (some M') →
      i = j) ∧
    (∀ i q, InitStep i p q → (p.calls i).pc.inBody = false →
      { q.w with initState := p.w.initState } = p.w ∧
      ((q.calls i).pc = .returned none → q.w = p.w ∧ ∀ j, j ≠ i → q.calls j = p.calls j)) ∧
    ((∀ j, ∃ r, (p.calls j).pc = .returned r) →
      (p.w.initState = initDone ∧ ∃ i M, (p.calls i).pc = .returned (some M)) ∨
      (p.w.initState = initNotDone ∧ ∀ j, (p.calls j).pc = .returned none)) := by
  have hS := InitReach.shape
    (.inl ⟨h₀, fun j => by simp [hstart, InitPc.inBody], fun j M => by simp [hstart]⟩) hp
  refine ⟨fun i j => hS.inBody_unique, fun i j M M' => hS.returned_some_unique,
    fun i q hs hb => ?_, hS.all_returned⟩
  obtain ⟨hw, hret⟩ := hs.outside_body hb
  exact ⟨hw, fun e => ⟨hret e, hs.calls_ne⟩⟩

/-- Two calls of `PmallocInit` on a fresh 64 MiB file, both before their argument checks. -/
def twoCalls : InitProc Bool := ⟨freshWorld, fun _ => ⟨"", pmemInitSize, 0, .start⟩⟩

/-- Thread `true` runs alone and maps the file at `2^32`; thread `false` then passes the checks and
loses the CAS. -/
theorem pmallocInit_concurrent_twoCalls :
    twoCalls.w.initState = initNotDone ∧ (∀ j, (twoCalls.calls j).pc = .start) ∧
    ∃ p, InitReach twoCalls p ∧ (∀ j, ∃ r, (p.calls j).pc = .returned r) ∧
      (∀ i j, (p.calls i).pc.inBody = true → (p.calls j).pc.inBody = true → i = j) ∧
      (∀ i j M M', (p.calls i).pc = .returned (some M) → (p.calls j).pc = .returned (some M') →
        i = j) ∧
      (∀ i q, InitStep i p q → (p.calls i).pc.inBody = false →
        { q.w with initState := p.w.initState } = p.w ∧
        ((q.calls i).pc = .returned none → q.w = p.w ∧ ∀ j, j ≠ i → q.calls j = p.calls j)) ∧
      ((∀ j, ∃ r, (p.calls j).pc = .returned r) →
        (p.w.initState = initDone ∧ ∃ i M, (p.calls i).pc = .returned (some M)) ∨
        (p.w.initState = initNotDone ∧ ∀ j, (p.calls j).pc = .returned none)) := by
  obtain ⟨w, hw, hdone⟩ : ∃ w, pmallocInit "" pmemInitSize 0 (some (2 ^ 32, 2 ^ 26)) freshWorld =
      .ok (w, some (2 ^ 32)) ∧ w.initState = initDone := ⟨_, by rfl, by rfl⟩
  have hne : w.initState ≠ initNotDone := by rw [hdone]; decide
  have hp := ((InitReach.of_pmallocInit (p := twoCalls) (i := true) rfl hw).step
    (.argsOk (i := false) rfl rfl)).step (.casFail (i := false) rfl hne)
  exact ⟨rfl, fun _ => rfl, _, hp, fun j => by cases j <;> exact ⟨_, rfl⟩,
    pmallocInit_concurrent twoCalls rfl (fun _ => rfl) hp⟩

end GoPmem
