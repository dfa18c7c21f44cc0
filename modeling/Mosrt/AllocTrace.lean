/-
Allocation with its walks on record, on a memory that is good only up to a point.

* `traceMalloc` — `vm_alloc_malloc` together with the addresses of the headers that each
  of its walks visits; `traceMalloc_run` says that it is the same call;
* `vmAllocMalloc_mono` — a call that comes to an end does the same with more fuel;
* `HeapSimUpto` — two memories that the allocator cannot tell apart until the first one is
  no longer `ok` or refuses an access.  A refused access makes an allocation return `0`
  (`HeapSimUpto.traceMalloc`), while a release goes on as if nothing had happened
  (`HeapSimUpto.free`).
-/
import Mosrt.VmAlloc

namespace Mosrt

open StateSim

/-! ### The walks of an allocation -/

section Trace

variable {σ : Type} (o : HeapOps σ)

/-- `allocWalk` with the headers it visits. -/
def traceWalk (size : ℕ) : ℕ → ℕ → BlockHdr → StateM σ (List ℕ × Option WalkEnd)
  | 0, _, _ => pure ([], none)
  | fuel + 1, currAddr, currHdr => do
    let s ← get
    if currAddr < o.heapBreak s then do
      match ← readHdr o currAddr with
      | none => pure ([currAddr], some .failed)
      | some hdr =>
        if hdr.isFree ∧ size ≤ hdr.size then pure ([currAddr], some (.found currAddr hdr))
        else if hdr.next = 0 then pure ([currAddr], some (.exhausted currAddr hdr))
        else do
          let r ← traceWalk size fuel hdr.next hdr
          pure (currAddr :: r.1, r.2)
    else pure ([], some (.exhausted currAddr currHdr))

/-- `vmAllocMalloc` with the headers that each of its walks visits. -/
def traceMalloc : ℕ → ℕ → StateM σ (List (List ℕ) × Option ℕ)
  | 0, _ => pure ([], none)
  | fuel + 1, size => do
    let s ← get
    let size' := alignUp size 4
    if o.hasVm s = false ∨ size = 0 ∨ 2 ^ 16 - 1 < size ∨ size' = 0 ∨ 2 ^ 16 - 1 < size' then
      pure ([], some 0)
    else do
      if ← allocInit o then do
        let s ← get
        let w ← traceWalk o size' fuel (o.heapStart s) {}
        match w.2 with
        | none => pure ([w.1], none)
        | some .failed => pure ([w.1], some 0)
        | some (.found currAddr currHdr) => do
          let a ← allocTake o size' currAddr currHdr
          pure ([w.1], some a)
        | some (.exhausted currAddr currHdr) => do
          if ← allocGrow o size' currAddr currHdr then do
            let r ← traceMalloc fuel size'
            pure (w.1 :: r.1, r.2)
          else pure ([w.1], some 0)
      else pure ([], some 0)

variable {o} {size fuel : ℕ} {s : σ}

theorem traceWalk_run (o : HeapOps σ) (size fuel currAddr : ℕ) (currHdr : BlockHdr) (s : σ) :
    (allocWalk o size fuel currAddr currHdr).run s =
      (((traceWalk o size fuel currAddr currHdr).run s).1.2,
        ((traceWalk o size fuel currAddr currHdr).run s).2) := by
  induction fuel generalizing currAddr currHdr s with
  | zero => rfl
  | succ fuel ih =>
    rw [allocWalk, traceWalk, run_get_bind, run_get_bind]
    split_ifs
    · rw [run_bind, run_bind]
      obtain ⟨r, s', hread⟩ : ∃ r s', (readHdr o currAddr).run s = (r, s') := ⟨_, _, rfl⟩
      rw [hread]
      cases r with
      | none => rfl
      | some hdr =>
        dsimp only
        split_ifs
        · rfl
        · rfl
        · rw [ih, run_bind]
          rfl
    · rfl

theorem traceMalloc_run (o : HeapOps σ) (fuel size : ℕ) (s : σ) :
    (vmAllocMalloc o fuel size).run s =
      (((traceMalloc o fuel size).run s).1.2, ((traceMalloc o fuel size).run s).2) := by
  induction fuel generalizing size s with
  | zero => rfl
  | succ fuel ih =>
    rw [vmAllocMalloc, traceMalloc, run_get_bind, run_get_bind]
    dsimp only
    split_ifs
    · rfl
    · rw [run_bind, run_bind]
      obtain ⟨started, s₁, hinit⟩ : ∃ b s₁, (allocInit o).run s = (b, s₁) := ⟨_, _, rfl⟩
      rw [hinit]
      cases started with
      | false => rfl
      | true =>
        rw [if_pos rfl, if_pos rfl, run_get_bind, run_get_bind, run_bind, run_bind, traceWalk_run]
        obtain ⟨⟨as, w⟩, s₂, hwalk⟩ : ∃ w s₂,
          (traceWalk o (alignUp size 4) fuel (o.heapStart s₁) {}).run s₁ = (w, s₂) := ⟨_, _, rfl⟩
        rw [hwalk]
        match w with
        | none => rfl
        | some .failed => rfl
        | some (.found _ _) => rfl
        | some (.exhausted a hd) =>
          dsimp only
          rw [run_bind, run_bind]
          obtain ⟨grown, s₃, hgrow⟩ : ∃ b s₃,
            (allocGrow o (alignUp size 4) a hd).run s₂ = (b, s₃) := ⟨_, _, rfl⟩
          rw [hgrow]
          cases grown with
          | false => rfl
          | true =>
            rw [if_pos rfl, if_pos rfl, ih, run_bind]
            rfl

/-! ### Fuel -/

theorem allocWalk_succ {currAddr : ℕ} {currHdr : BlockHdr} {r : WalkEnd} {s' : σ}
    (h : (allocWalk o size fuel currAddr currHdr).run s = (some r, s')) :
    (allocWalk o size (fuel + 1) currAddr currHdr).run s = (some r, s') := by
  induction fuel generalizing currAddr currHdr s with
  | zero => cases h
  | succ fuel ih =>
    rw [allocWalk, run_get_bind] at h ⊢
    split_ifs at h ⊢
    · rw [run_bind] at h ⊢
      obtain ⟨hdr, s₁, hread⟩ : ∃ r s₁, (readHdr o currAddr).run s = (r, s₁) := ⟨_, _, rfl⟩
      rw [hread] at h ⊢
      cases hdr with
      | none => exact h
      | some hdr =>
        dsimp only at h ⊢
        split_ifs at h ⊢
        · exact h
        · exact h
        · exact ih h
    · exact h

theorem vmAllocMalloc_succ {r : ℕ} {s' : σ}
    (h : (vmAllocMalloc o fuel size).run s = (some r, s')) :
    (vmAllocMalloc o (fuel + 1) size).run s = (some r, s') := by
  induction fuel generalizing size s with
  | zero => cases h
  | succ fuel ih =>
    rw [vmAllocMalloc, run_get_bind] at h ⊢
    dsimp only at h ⊢
    split_ifs at h ⊢
    · exact h
    · rw [run_bind] at h ⊢
      obtain ⟨started, s₁, hinit⟩ : ∃ b s₁, (allocInit o).run s = (b, s₁) := ⟨_, _, rfl⟩
      rw [hinit] at h ⊢
      cases started with
      | false => exact h
      | true =>
        rw [if_pos rfl, run_get_bind, run_bind] at h ⊢
        obtain ⟨w, s₂, hwalk⟩ : ∃ w s₂,
          (allocWalk o (alignUp size 4) fuel (o.heapStart s₁) {}).run s₁ = (w, s₂) := ⟨_, _, rfl⟩
        rw [hwalk] at h
        cases w with
        | none => cases h
        | some w =>
          rw [allocWalk_succ hwalk]
          match w with
          | .failed => exact h
          | .found _ _ => exact h
          | .exhausted a hd =>
            dsimp only at h ⊢
            rw [run_bind] at h ⊢
            obtain ⟨grown, s₃, hgrow⟩ : ∃ b s₃,
              (allocGrow o (alignUp size 4) a hd).run s₂ = (b, s₃) := ⟨_, _, rfl⟩
            rw [hgrow] at h ⊢
            cases grown with
            | false => exact h
            | true =>
              rw [if_pos rfl] at h ⊢
              exact ih h

theorem allocWalk_mono {fuel' currAddr : ℕ} {currHdr : BlockHdr} {r : WalkEnd} {s' : σ}
    (h : (allocWalk o size fuel currAddr currHdr).run s = (some r, s')) (hle : fuel ≤ fuel') :
    (allocWalk o size fuel' currAddr currHdr).run s = (some r, s') := by
  induction hle with
  | refl => exact h
  | step _ ih => exact allocWalk_succ ih

theorem vmAllocMalloc_mono {fuel' r : ℕ} {s' : σ}
    (h : (vmAllocMalloc o fuel size).run s = (some r, s')) (hle : fuel ≤ fuel') :
    (vmAllocMalloc o fuel' size).run s = (some r, s') := by
  induction hle with
  | refl => exact h
  | step _ ih => exact vmAllocMalloc_succ ih

end Trace

/-! ### Simulation with an end -/

/-- Two memories that the allocator cannot tell apart on states related by `R`, as long as the
first is `ok`; where `fails` holds, the first may refuse an access. -/
structure HeapSimUpto {σ τ : Type} (o : HeapOps σ) (o' : HeapOps τ) (ok : σ → Prop)
    (R : σ → τ → Prop) (fails : Prop) : Prop where
  hasVm : ∀ s t, R s t → o.hasVm s = o'.hasVm t
  heapStart : ∀ s t, R s t → o.heapStart s = o'.heapStart t
  heapBreak : ∀ s t, R s t → o.heapBreak s = o'.heapBreak t
  readMem : ∀ addr len,
    SimUpto ok R (fun r _ => fails ∧ r = none) (o.readMem addr len) (o'.readMem addr len)
  writeMem : ∀ addr src,
    SimUpto ok R (fun r _ => fails ∧ r = false) (o.writeMem addr src) (o'.writeMem addr src)
  heapGrow : ∀ n, SimUpto ok R (fun _ _ => False) (heapGrow o n) (heapGrow o' n)

section Simulation

variable {σ τ : Type} {o : HeapOps σ} {o' : HeapOps τ} {ok : σ → Prop} {R : σ → τ → Prop}
  {fails : Prop}

/-- Memories that cannot be told apart at all. -/
theorem HeapCalls.upto (h : HeapCalls o o' R) : HeapSimUpto o o' (fun _ => True) R False where
  hasVm := h.hasVm
  heapStart := h.heapStart
  heapBreak := h.heapBreak
  readMem := fun addr len => ⟨fun _ _ => trivial, fun s t hR _ => .inl (h.readMem addr len s t hR)⟩
  writeMem := fun addr src =>
    ⟨fun _ _ => trivial, fun s t hR _ => .inl (h.writeMem addr src s t hR)⟩
  heapGrow := fun n => ⟨fun _ _ => trivial, fun s t hR _ => .inl (h.heapGrow n s t hR)⟩

/-- The first memory cannot become `ok` again. -/
theorem HeapSimUpto.stuck (h : HeapSimUpto o o' ok R fails) :
    HeapCalls o o fun s t => s = t ∧ ¬ ok s where
  hasVm := fun s t hR => by rw [hR.1]
  heapStart := fun s t hR => by rw [hR.1]
  heapBreak := fun s t hR => by rw [hR.1]
  readMem := by
    rintro addr len s _ ⟨rfl, hs⟩
    exact ⟨rfl, rfl, fun hok => hs ((h.readMem addr len).lost s hok)⟩
  writeMem := by
    rintro addr src s _ ⟨rfl, hs⟩
    exact ⟨rfl, rfl, fun hok => hs ((h.writeMem addr src).lost s hok)⟩
  heapGrow := by
    rintro n s _ ⟨rfl, hs⟩
    exact ⟨rfl, rfl, fun hok => hs ((h.heapGrow n).lost s hok)⟩

theorem HeapSimUpto.readHdr (h : HeapSimUpto o o' ok R fails) (addr : ℕ) :
    SimUpto ok R (fun r _ => fails ∧ r = none) (Mosrt.readHdr o addr) (Mosrt.readHdr o' addr) := by
  refine (h.readMem addr _).bind ?_ fun _ => .pure _
  rintro _ _ ⟨hf, rfl⟩ _ _
  exact ⟨hf, rfl⟩

theorem HeapSimUpto.writeHdr (h : HeapSimUpto o o' ok R fails) (addr : ℕ) (hdr : BlockHdr) :
    SimUpto ok R (fun r _ => fails ∧ r = false) (Mosrt.writeHdr o addr hdr)
      (Mosrt.writeHdr o' addr hdr) := h.writeMem addr _

theorem HeapSimUpto.allocInit (h : HeapSimUpto o o' ok R fails) :
    SimUpto ok R (fun r _ => fails ∧ r = false) (Mosrt.allocInit o) (Mosrt.allocInit o') := by
  refine .get_bind h.stuck.allocInit.lost fun s t hR => ?_
  rw [h.heapBreak s t hR, h.heapStart s t hR]
  refine .ite ((h.heapGrow 2).bind (fun _ _ hE => hE.elim) fun _ => .ite ?_ (.pure _)) (.pure _)
  refine .get_bind (fun s => (h.writeHdr _ _).lost s) fun s t hR => ?_
  rw [h.heapBreak s t hR, h.heapStart s t hR]
  exact h.writeHdr _ _

/-- A walk that meets a refused access has visited what the other walk visits first. -/
theorem HeapSimUpto.traceWalk (h : HeapSimUpto o o' ok R fails) (size fuel currAddr : ℕ)
    (currHdr : BlockHdr) :
    SimUpto ok R (fun r r' => fails ∧ r.1 <+: r'.1 ∧ r.2 = some .failed)
      (Mosrt.traceWalk o size fuel currAddr currHdr)
      (Mosrt.traceWalk o' size fuel currAddr currHdr) := by
  induction fuel generalizing currAddr currHdr with
  | zero => exact .pure _
  | succ fuel ih =>
    refine .get_bind ?_ fun s t hR => ?_
    · intro s hok
      refine (h.stuck.allocWalk size (fuel + 1) currAddr currHdr).lost s ?_
      rw [traceWalk_run]
      exact hok
    · rw [h.heapBreak s t hR]
      refine .ite ((h.readHdr currAddr).bind ?_ ?_) (.pure _)
      · rintro _ r ⟨hf, rfl⟩ s t
        refine ⟨hf, ?_, rfl⟩
        cases r with
        | none => exact List.prefix_rfl
        | some hdr =>
          dsimp only
          split_ifs
          · exact List.prefix_rfl
          · exact List.prefix_rfl
          · exact List.cons_prefix_cons.mpr ⟨rfl, List.nil_prefix⟩
      · intro r
        cases r with
        | none => exact .pure _
        | some hdr =>
          refine .ite (.pure _) (.ite (.pure _) ((ih _ _).bind ?_ fun _ => .pure _))
          rintro a b ⟨hf, hpre, hfail⟩ _ _
          exact ⟨hf, List.cons_prefix_cons.mpr ⟨rfl, hpre⟩, hfail⟩

theorem HeapSimUpto.relinkPrev (h : HeapSimUpto o o' ok R fails) (addr prev : ℕ) :
    SimUpto ok R (fun r _ => fails ∧ r = false) (Mosrt.relinkPrev o addr prev)
      (Mosrt.relinkPrev o' addr prev) := by
  refine .ite (.pure _) ((h.readHdr addr).bind ?_ ?_)
  · rintro _ _ ⟨hf, rfl⟩ _ _
    exact ⟨hf, rfl⟩
  · intro r
    cases r with
    | none => exact .pure _
    | some hdr => exact h.writeHdr _ _

/-- A write, and what is done if it was not refused. -/
theorem HeapSimUpto.written {β : Type} {E : β → β → Prop} {x : StateM σ Bool} {y : StateM τ Bool}
    {f : StateM σ β} {g : StateM τ β} {b : β}
    (hx : SimUpto ok R (fun r _ => fails ∧ r = false) x y) (hf : SimUpto ok R E f g)
    (hE : fails → ∀ c, E b c) :
    SimUpto ok R E (x >>= fun r => if r = true then f else pure b)
      (y >>= fun r => if r = true then g else pure b) := by
  refine hx.bind ?_ fun _ => .ite hf (.pure _)
  rintro _ _ ⟨hfails, rfl⟩ _ _
  exact hE hfails _

theorem HeapSimUpto.allocTake (h : HeapSimUpto o o' ok R fails) (size currAddr : ℕ)
    (currHdr : BlockHdr) :
    SimUpto ok R (fun r _ => fails ∧ r = 0) (Mosrt.allocTake o size currAddr currHdr)
      (Mosrt.allocTake o' size currAddr currHdr) := by
  have hzero : fails → ∀ c : ℕ, fails ∧ (0 : ℕ) = 0 := fun hf _ => ⟨hf, rfl⟩
  refine .ite ?_ (written (h.writeHdr _ _) (.pure _) hzero)
  refine written (h.writeHdr _ _) (written (h.writeHdr _ _) ?_ hzero) hzero
  exact written (h.relinkPrev _ _) (.pure _) hzero

theorem HeapSimUpto.allocGrow (h : HeapSimUpto o o' ok R fails) (size currAddr : ℕ)
    (currHdr : BlockHdr) :
    SimUpto ok R (fun r _ => fails ∧ r = false) (Mosrt.allocGrow o size currAddr currHdr)
      (Mosrt.allocGrow o' size currAddr currHdr) := by
  refine .get_bind (h.stuck.allocGrow size currAddr currHdr).lost fun s t hR => ?_
  rw [h.heapBreak s t hR]
  refine (h.heapGrow _).bind (fun _ _ hE => hE.elim) fun _ => .ite ?_ (.pure _)
  exact written (h.writeHdr _ _) (h.writeHdr _ _) fun hf _ => ⟨hf, rfl⟩

/-- Looking up the start of the heap. -/
theorem HeapSimUpto.from_heapStart {α β : Type} {E : α → α → Prop} {E' : β → β → Prop}
    (h : HeapSimUpto o o' ok R fails) {x : ℕ → StateM σ α} {y : ℕ → StateM τ α}
    {f : α → StateM σ β} {g : α → StateM τ β} (hx : ∀ a, SimUpto ok R E (x a) (y a))
    (hE : ∀ a b, E a b → ∀ s t, E' ((f a).run s).1 ((g b).run t).1)
    (hf : ∀ a, SimUpto ok R E' (f a) (g a)) :
    SimUpto ok R E' (get >>= fun s => x (o.heapStart s) >>= f)
      (get >>= fun t => y (o'.heapStart t) >>= g) := by
  refine .get_bind (fun s => ((hx _).bind hE hf).lost s) fun s t hR => ?_
  rw [h.heapStart s t hR]
  exact (hx _).bind hE hf

/-- An allocation with a refused access returns `0`, and its walks visit what the walks on the
other memory visit first. -/
theorem HeapSimUpto.traceMalloc (h : HeapSimUpto o o' ok R fails) (fuel size : ℕ) :
    SimUpto ok R
      (fun r r' => fails ∧ (∀ as ∈ r.1, ∃ as' ∈ r'.1, as <+: as') ∧ r.2 = some 0)
      (Mosrt.traceMalloc o fuel size) (Mosrt.traceMalloc o' fuel size) := by
  induction fuel generalizing size with
  | zero => exact .pure _
  | succ fuel ih =>
    refine .get_bind ?_ fun s t hR => ?_
    · intro s hok
      refine (h.stuck.malloc (fuel + 1) size).lost s ?_
      rw [traceMalloc_run]
      exact hok
    · rw [h.hasVm s t hR]
      refine .ite (.pure _) (written h.allocInit ?_ fun hf _ => ⟨hf, nofun, rfl⟩)
      refine h.from_heapStart (fun a => h.traceWalk _ _ a _) ?_ ?_
      · rintro ⟨as, _⟩ ⟨as', w'⟩ ⟨hf, hpre, rfl⟩ s t
        refine ⟨hf, fun bs hbs => ⟨as', ?_, ?_⟩, rfl⟩
        · -- whatever the other call does next, this walk is on its record
          match w' with
          | none => exact List.mem_cons_self
          | some .failed => exact List.mem_cons_self
          | some (.found _ _) => exact List.mem_cons_self
          | some (.exhausted a hd) =>
            dsimp only
            rw [run_bind]
            split_ifs
            · exact List.mem_cons_self
            · exact List.mem_cons_self
        · rw [List.mem_singleton.mp hbs]
          exact hpre
      · rintro ⟨as, w⟩
        match w with
        | none => exact .pure _
        | some .failed => exact .pure _
        | some (.found _ _) =>
          refine (h.allocTake _ _ _).bind ?_ fun _ => .pure _
          rintro _ _ ⟨hf, rfl⟩ _ _
          exact ⟨hf, fun as has => ⟨as, has, List.prefix_rfl⟩, rfl⟩
        | some (.exhausted _ _) =>
          refine (h.allocGrow _ _ _).bind ?_ fun _ =>
            .ite ((ih _).bind ?_ fun _ => .pure _) (.pure _)
          · rintro _ grown ⟨hf, rfl⟩ _ _
            refine ⟨hf, fun bs hbs => ⟨as, ?_, ?_⟩, rfl⟩
            · cases grown with
              | false => exact List.mem_cons_self
              | true => exact List.mem_cons_self
            · rw [List.mem_singleton.mp hbs]
          · rintro a b ⟨hf, hpre, hzero⟩ _ _
            refine ⟨hf, ?_, hzero⟩
            intro bs hbs
            rcases List.mem_cons.mp hbs with rfl | hbs
            · exact ⟨bs, List.mem_cons_self, List.prefix_rfl⟩
            · obtain ⟨bs', hbs', hle⟩ := hpre bs hbs
              exact ⟨bs', List.mem_cons_of_mem _ hbs', hle⟩

theorem HeapSimUpto.freeMergeNext (h : HeapSimUpto o o' ok R fails) (currAddr : ℕ)
    (currHdr : BlockHdr) :
    SimUpto ok R (fun r _ => fails ∧ r = none) (Mosrt.freeMergeNext o currAddr currHdr)
      (Mosrt.freeMergeNext o' currAddr currHdr) := by
  have hnone : fails → ∀ c : Option BlockHdr, fails ∧ (none : Option BlockHdr) = none :=
    fun hf _ => ⟨hf, rfl⟩
  refine .ite (.pure _) ((h.readHdr _).bind ?_ ?_)
  · rintro _ _ ⟨hf, rfl⟩ _ _
    exact ⟨hf, rfl⟩
  · intro r
    cases r with
    | none => exact .pure _
    | some hdr =>
      refine .ite (written (h.writeHdr _ _) ?_ hnone) (.pure _)
      exact written (h.relinkPrev _ _) (.pure _) hnone

theorem HeapSimUpto.freeMergePrev (h : HeapSimUpto o o' ok R fails) (currHdr : BlockHdr) :
    SimUpto ok R (fun _ _ => fails) (Mosrt.freeMergePrev o currHdr)
      (Mosrt.freeMergePrev o' currHdr) := by
  refine .ite (.pure _) ((h.readHdr _).bind (fun _ _ hE _ _ => hE.1) ?_)
  intro r
  cases r with
  | none => exact .pure _
  | some hdr =>
    refine .ite (written (h.writeHdr _ _) ?_ fun hf _ => hf) (.pure _)
    exact (h.relinkPrev _ _).bind (fun _ _ hE _ _ => hE.1) fun _ => .pure _

/-- A release does not report a refused access. -/
theorem HeapSimUpto.free (h : HeapSimUpto o o' ok R fails) (addr : ℕ) :
    SimUpto ok R (fun _ _ => fails) (vmAllocFree o addr) (vmAllocFree o' addr) := by
  refine .get_bind (h.stuck.free addr).lost fun s t hR => ?_
  rw [h.hasVm s t hR, h.heapStart s t hR, h.heapBreak s t hR]
  refine .ite (.pure _) ((h.readHdr _).bind (fun _ _ hE _ _ => hE.1) ?_)
  intro r
  cases r with
  | none => exact .pure _
  | some hdr =>
    refine .ite (.pure _) (written (h.writeHdr _ _) ?_ fun hf _ => hf)
    refine (h.freeMergeNext _ _).bind (fun _ _ hE _ _ => hE.1) ?_
    intro r
    cases r with
    | none => exact .pure _
    | some hdr => exact h.freeMergePrev _

end Simulation

end Mosrt
