/-
The TLB is coherent with the page table of the acting process.

`MemSys` is the memory system together with the process that acts on it; the
operations `MemOp` are the calls of that process, policy changes, creations, and
process switches with the flush that `dispatch` does.

* `Translated.coherent`, `Translated.exact` — one translation keeps coherence and
  exact ownership;
* `MemSys.Ok`, `MemOp.run_ok` — both hold in every state the operations reach;
* `tlb_coherent` — the result in the source's terms.
-/
import Mosrt.PagerOwnership
import Mosrt.VmSpec

namespace Mosrt

variable {s s' : VmSys} {pid : ℤ} {vpn tick : ℕ} {write : Bool} {r : Option ℕ}
  {res : PagerResult} {out : Option ℕ} {st : PagedStore PageKey ℕ ℕ PageContents} {t : TlbState}

/-! ### Coherence -/

/-- A TLB entry says what the page table of `pid` says; it may be clean where the page is dirty. -/
def MatchesPte (st : PagedStore PageKey ℕ ℕ PageContents) (perms : ℤ → ℕ → Option ℕ) (pid : ℤ) :
    TlbCond :=
  fun v f perm d => (st.entry (pid, v)).frame = some f ∧ perms pid v = some perm ∧
    (d = true → (st.entry (pid, v)).dirty = true)

structure VmSys.Coherent (s : VmSys) (pid : ℤ) : Prop where
  unique : s.tlb.Unique
  agrees : s.tlb.Agrees (MatchesPte s.paged s.perms pid)

theorem SameMemory.coherent (h : SameMemory s s') (hc : s.Coherent pid) : s'.Coherent pid := by
  refine ⟨?_, ?_⟩
  · rw [h.tlb]
    exact hc.unique
  · rw [h.tlb, h.paged, h.perms]
    exact hc.agrees

theorem VmSys.Coherent.lookedUp (hc : s.Coherent pid) (v n : ℕ) : (s.lookedUp v n).Coherent pid :=
  ⟨hc.unique.lookup, hc.agrees.lookup⟩

theorem MatchesPte.markDirty {perms : ℤ → ℕ → Option ℕ} {k : PageKey} {v f perm : ℕ} {d : Bool}
    (h : MatchesPte st perms pid v f perm d) :
    MatchesPte (st.markDirty k) perms pid v f perm d := by
  obtain ⟨hf, hp, hd⟩ := h
  exact ⟨(PagedStore.markDirty_frame _).trans hf, hp, fun h => PagedStore.markDirty_dirty (hd h)⟩

/-- An access may mark the page dirty; entries stay matched. -/
theorem MatchesPte.touched {perms : ℤ → ℕ → Option ℕ} {k : PageKey} {v f perm : ℕ} {d : Bool}
    (h : MatchesPte st perms pid v f perm d) :
    MatchesPte (if write = true then st.markDirty k else st) perms pid v f perm d := by
  split_ifs
  · exact h.markDirty
  · exact h

/-- The entry a write or a read leaves for its own page. -/
theorem MatchesPte.touched_self (write : Bool) {perms : ℤ → ℕ → Option ℕ} {v f perm : ℕ}
    (hf : (st.entry (pid, v)).frame = some f) (hp : perms pid v = some perm) :
    MatchesPte (if write = true then st.markDirty (pid, v) else st) perms pid v f perm
      ((st.entry (pid, v)).dirty || write) := by
  cases write with
  | true =>
    exact ⟨(PagedStore.markDirty_frame _).trans hf, hp, fun _ => PagedStore.markDirty_dirty_self⟩
  | false => exact ⟨hf, hp, fun hd => by simpa using hd⟩

/-- Making room keeps the TLB coherent with what is left: the evicted page number is flushed. -/
theorem Room.coherent (h : Room s pid st t) (hc : s.Coherent pid) :
    t.Unique ∧ t.Agrees (MatchesPte st s.perms pid) := by
  cases h with
  | free => exact ⟨hc.unique, hc.agrees⟩
  | @evicted f k _ _ _ _ hev =>
    refine ⟨hc.unique.flushEntry, hc.agrees.flushEntry ?_⟩
    intro v f' perm d hv hm
    have hne : (pid, v) ≠ k := by
      rintro rfl
      exact hv rfl
    have hent := hev.entry_ne hne
    rw [MatchesPte, hent]
    exact hm

theorem AccessSpec.coherent (h : AccessSpec s pid vpn write tick res out s')
    (hc : s.Coherent pid) : s'.Coherent pid := by
  cases h with
  | error _ hsame => exact hsame.coherent hc
  | hit hf hperm _ hp ht hperms =>
    refine ⟨?_, ?_⟩
    · rw [ht]
      exact hc.unique.insert
    · rw [ht, hp, hperms]
      exact hc.agrees.insert hc.unique (fun _ _ _ _ _ hm => hm.touched)
        (MatchesPte.touched_self write hf hperm)
  | fault hframe hperm _ hroom _ _ _ _ hp ht hperms =>
    obtain ⟨hu, ha⟩ := hroom.coherent hc
    refine ⟨?_, ?_⟩
    · rw [ht]
      exact hu.flushEntry.insert
    · rw [ht, hp, hperms]
      refine (ha.flushEntry fun _ _ _ _ _ hm => hm).insert hu.flushEntry ?_ ?_
      · intro v f' perm' d hv hm
        have hne : (pid, v) ≠ (pid, vpn) := by
          intro heq
          exact hv (Prod.mk.inj heq).2
        simpa [MatchesPte, PagedStore.load, hne, hv] using hm
      · exact ⟨by simp [PagedStore.load], hperm, by simp [PagedStore.load]⟩

/-- The frame an access hands out is the page's. -/
theorem AccessSpec.frame {f : ℕ} (h : AccessSpec s pid vpn write tick res (some f) s') :
    (s'.paged.entry (pid, vpn)).frame = some f := by
  cases h with
  | hit hf _ _ hp =>
    rw [hp]
    split_ifs
    · exact (PagedStore.markDirty_frame _).trans hf
    · exact hf
  | fault _ _ _ _ _ _ _ _ hp =>
    rw [hp]
    simp [PagedStore.load]

/-! ### Translation -/

theorem Translated.coherent (h : Translated s pid vpn write tick r s') (hc : s.Coherent pid) :
    s'.Coherent pid := by
  cases h with
  | tlbRefused _ _ => exact hc.lookedUp vpn tick
  | @tlbServed hit _ hr _ hp ht hperms =>
    obtain ⟨hu, ha⟩ := hc.lookedUp vpn tick
    rcases ht with ⟨ht, -⟩ | ⟨ht, hw⟩
    · refine ⟨?_, ?_⟩
      · rw [ht]
        exact hu
      · rw [ht, hp, hperms]
        exact ha.mono fun _ _ _ _ hm => hm.touched
    · obtain ⟨hf, hperm, -⟩ := hc.agrees.hit hr
      refine ⟨?_, ?_⟩
      · rw [ht]
        exact hu.insert
      · rw [ht, hp, hperms]
        refine ha.insert hu (fun _ _ _ _ _ hm => hm.touched) ?_
        subst hw
        have hself := MatchesPte.touched_self true hf hperm
        rwa [Bool.or_true] at hself
  | failed _ _ hsame => exact hsame.coherent (hc.lookedUp vpn tick)
  | @walked _ f perm s₁ _ _ hacc hperm hp ht hperms =>
    have hc₁ := hacc.coherent (hc.lookedUp vpn tick)
    refine ⟨?_, ?_⟩
    · rw [ht]
      exact hc₁.unique.insert
    · rw [ht, hp, hperms]
      exact hc₁.agrees.insert hc₁.unique (fun _ _ _ _ _ hm => hm) ⟨hacc.frame, hperm, id⟩

/-- With a coherent TLB the frame a translation gives is the page's. -/
theorem Translated.frame {f : ℕ} (h : Translated s pid vpn write tick (some f) s')
    (hc : s.Coherent pid) : (s'.paged.entry (pid, vpn)).frame = some f := by
  cases h with
  | tlbServed hr _ hp =>
    obtain ⟨hf, -, -⟩ := hc.agrees.hit hr
    rw [hp]
    split_ifs
    · exact (PagedStore.markDirty_frame _).trans hf
    · exact hf
  | walked _ hacc _ hp =>
    rw [hp]
    exact hacc.frame

theorem Translated.exact (h : Translated s pid vpn write tick r s') (hc : s.Coherent pid)
    (he : s.paged.Exact) : s'.paged.Exact := by
  cases h with
  | tlbRefused _ _ => exact he
  | tlbServed hr _ hp =>
    obtain ⟨hf, -, -⟩ := hc.agrees.hit hr
    rw [hp]
    split_ifs
    · exact he.markDirty (by simp [hf])
    · exact he
  | failed _ _ hsame =>
    rw [hsame.paged]
    exact he
  | walked _ hacc _ hp =>
    rw [hp]
    exact hacc.exact he

/-! ### Bytes and calls -/

/-- What holds between the operations on memory: ownership is exact and the TLB coherent. -/
structure VmSys.Ok (s : VmSys) (pid : ℤ) : Prop where
  exact : s.paged.Exact
  coherent : s.Coherent pid

theorem SameMemory.ok (h : SameMemory s s') (hs : s.Ok pid) : s'.Ok pid :=
  ⟨by rw [h.paged]; exact hs.exact, h.coherent hs.coherent⟩

theorem Translated.ok (h : Translated s pid vpn write tick r s') (hs : s.Ok pid) : s'.Ok pid :=
  ⟨h.exact hs.coherent hs.exact, h.coherent hs.coherent⟩

/-- The frame of a page is a real one. -/
theorem VmSys.Ok.frame_lt (hs : s.Ok pid) {k : PageKey} {f : ℕ}
    (hf : (s.paged.entry k).frame = some f) : f < vmNumFrames :=
  frameGetOwner_lt (hs.exact.frame_owned hf)

theorem VmSys.Ok.setByte (hs : s.Ok pid) {f : ℕ} (hf : f < vmNumFrames) (addr : ℕ) (b : UInt8) :
    (s.setByte f (offsetOf addr) b).Ok pid := by
  have hpaged : (s.setByte f (offsetOf addr) b).paged = _ := paged_setByte hf
  refine ⟨?_, hs.coherent.unique, ?_⟩
  · rw [hpaged]
    exact hs.exact.store _
  · rw [hpaged]
    exact hs.coherent.agrees

theorem vmReadByte_ok (hs : s.Ok pid) (addr tick : ℕ) : (vmReadByte s pid addr tick).2.Ok pid := by
  obtain ⟨r, s₁, htr, heq⟩ := vmReadByte_spec hs.exact.toSound pid addr tick
  rw [heq]
  exact htr.ok hs

theorem vmWriteByte_ok (hs : s.Ok pid) (hvm : (s.vms pid).isSome) (addr : ℕ) (b : UInt8)
    (tick : ℕ) : (vmWriteByte s pid addr b tick).2.Ok pid := by
  obtain ⟨r, s₁, htr, heq⟩ := vmWriteByte_spec hs.exact.toSound hvm addr b tick
  have hs₁ := htr.ok hs
  rw [heq]
  cases r with
  | none => exact hs₁
  | some f => exact hs₁.setByte (hs₁.frame_lt (htr.frame hs.coherent)) addr b

theorem vmReadMem_ok (hs : s.Ok pid) (virtAddr len tick : ℕ) :
    (vmReadMem s pid virtAddr len tick).2.Ok pid :=
  (vmReadMem_induct (Q := fun _ _ => True) (fun _ _ h => h.ok)
    (fun _ _ _ hs => ⟨vmReadByte_ok hs _ _, fun _ _ => trivial⟩)
    (fun _ => readAlong_true _ _ _ _) hs).1

theorem vmWriteMem_ok (hs : s.Ok pid) (virtAddr : ℕ) (src : List UInt8) (tick : ℕ) :
    (vmWriteMem s pid virtAddr src tick).2.2.Ok pid := by
  refine vmWriteMem_induct (I := fun _ s => s.Ok pid) (E := fun _ s => s.Ok pid)
    (fun _ _ _ h => h.ok) (fun _ _ hs => hs.exact.toSound) ?_ (fun _ hs => hs)
    (fun _ => writeAlong_true _ _ _ _) hs hs
  intro i b s _ _ hvm _ hs
  split_ifs <;> exact vmWriteByte_ok hs hvm _ b _

/-! ### Runs -/

/-- The memory system and the process that acts on it. -/
structure MemSys where
  sys : VmSys
  acting : ℤ

/-- `vm_init`, before any process runs. -/
def memInit : MemSys := { sys := vmInit, acting := -1 }

inductive MemOp where
  | create (pid : ℤ)
  | dispatch (pid : ℤ)
  | read (virtAddr len tick : ℕ)
  | write (virtAddr : ℕ) (src : List UInt8) (tick : ℕ)
  | setPolicy (name : String)

def MemOp.exec (m : MemSys) : MemOp → MemSys
  | .create pid => { m with sys := vmSpawn m.sys pid }
  | .dispatch pid => { sys := { m.sys with tlb := tlbFlush m.sys.tlb }, acting := pid }
  | .read virtAddr len tick => { m with sys := (vmReadMem m.sys m.acting virtAddr len tick).2 }
  | .write virtAddr src tick => { m with sys := (vmWriteMem m.sys m.acting virtAddr src tick).2.2 }
  | .setPolicy name => { m with sys := (pagerSetPolicy m.sys name).2 }

/-- A creation adds permissions and takes none away. -/
theorem vmSpawn_perms {p : ℤ} {v perm : ℕ} (pid : ℤ) (h : s.perms p v = some perm) :
    (vmSpawn s pid).perms p v = some perm := by
  rw [vmSpawn]
  split_ifs with hnone
  · have hp : p ≠ pid := by
      rintro rfl
      rw [Option.isNone_iff_eq_none] at hnone
      simp [VmSys.perms, VmSys.pte, hnone] at h
    simpa [VmSys.perms, VmSys.pte, hp] using h
  · exact h

theorem vmSpawn_tlb (pid : ℤ) : (vmSpawn s pid).tlb = s.tlb := by
  rw [vmSpawn]
  split_ifs <;> rfl

theorem vmSpawn_ok (hs : s.Ok p) (pid : ℤ) : (vmSpawn s pid).Ok p := by
  refine ⟨?_, ?_, ?_⟩
  · rw [vmSpawn_paged]
    exact hs.exact
  · rw [vmSpawn_tlb]
    exact hs.coherent.unique
  · rw [vmSpawn_tlb, vmSpawn_paged]
    exact hs.coherent.agrees.mono fun _ _ _ _ ⟨hf, hp, hd⟩ => ⟨hf, vmSpawn_perms pid hp, hd⟩

theorem pagerSetPolicy_sameMemory (s : VmSys) (name : String) :
    SameMemory s (pagerSetPolicy s name).2 := by
  obtain ⟨-, -, htlb, hvms⟩ := pagerSetPolicy_same s name
  refine ⟨pagerSetPolicy_paged s name, htlb, ?_, ?_⟩
  · funext p v
    simp only [VmSys.perms, VmSys.pte, hvms]
  · intro q
    rw [hvms]

theorem MemOp.exec_ok (op : MemOp) {m : MemSys} (hm : m.sys.Ok m.acting) :
    (op.exec m).sys.Ok (op.exec m).acting := by
  cases op with
  | create pid => exact vmSpawn_ok hm pid
  | dispatch pid => exact ⟨hm.exact, tlbFlush_unique, tlbFlush_agrees⟩
  | read virtAddr len tick => exact vmReadMem_ok hm virtAddr len tick
  | write virtAddr src tick => exact vmWriteMem_ok hm virtAddr src tick
  | setPolicy name => exact (pagerSetPolicy_sameMemory m.sys name).ok hm

theorem memInit_ok : memInit.sys.Ok memInit.acting := by
  refine ⟨vmInit_exact, ?_, ?_⟩
  · intro i _ j _ hv
    cases hv
  · intro i _ hv
    cases hv

theorem MemOp.run_ok (ops : List MemOp) :
    (Runs.run MemOp.exec memInit ops).sys.Ok (Runs.run MemOp.exec memInit ops).acting :=
  Runs.run_invariant (I := fun m : MemSys => m.sys.Ok m.acting)
    (fun _ op h _ => MemOp.exec_ok op h) memInit_ok (Runs.along_true _ _)

/-- Each permission is one bit: a TLB test for zero is the page table's test for equality. -/
theorem and_reqPerm (perm : ℕ) (write : Bool) :
    perm &&& reqPerm write = 0 ∨ perm &&& reqPerm write = reqPerm write := by
  cases write with
  | true =>
    have := Nat.and_two_pow perm 1
    cases h : perm.testBit 1 <;> simp [reqPerm, vmProtWrite, h] at this ⊢ <;> omega
  | false =>
    have := Nat.and_two_pow perm 0
    cases h : perm.testBit 0 <;> simp [reqPerm, vmProtRead, h] at this ⊢ <;> omega

/-- **The TLB is coherent** in every state reached: no page number is held twice, every
valid entry says what the acting process's page table says, and a hit gives the frame
and the permission verdict of a page-table walk. -/
theorem tlb_coherent (ops : List MemOp) :
    let m := Runs.run MemOp.exec memInit ops
    (∀ i < vmTlbSize, ∀ j < vmTlbSize, (m.sys.tlb.entries i).valid = true →
      (m.sys.tlb.entries j).valid = true →
      (m.sys.tlb.entries i).vpn = (m.sys.tlb.entries j).vpn → i = j) ∧
    (∀ i < vmTlbSize, (m.sys.tlb.entries i).valid = true →
      ∃ pte, m.sys.pte m.acting (m.sys.tlb.entries i).vpn = some pte ∧ pte.present = true ∧
        pte.frameNum = (m.sys.tlb.entries i).pfn ∧
        pte.permissions = (m.sys.tlb.entries i).permissions ∧
        ((m.sys.tlb.entries i).dirty = true → pte.dirty = true)) ∧
    (∀ vpn tick r write, (tlbLookup m.sys.tlb vpn tick).1 = some r →
      if r.permissions &&& reqPerm write = 0 then
        (pagerAccessPage m.sys m.acting vpn write tick).1 = .errorPerm
      else (pagerAccessPage m.sys m.acting vpn write tick).1 = .hit ∧
        (pagerAccessPage m.sys m.acting vpn write tick).2.1 = some r.pfn) := by
  intro m
  have hm : m.sys.Ok m.acting := MemOp.run_ok ops
  have hpte : ∀ v f perm d, MatchesPte m.sys.paged m.sys.perms m.acting v f perm d →
      ∃ pte, m.sys.pte m.acting v = some pte ∧ pte.present = true ∧ pte.frameNum = f ∧
        pte.permissions = perm ∧ (d = true → pte.dirty = true) := by
    rintro v f perm d ⟨hf, hp, hd⟩
    obtain ⟨e, he, hpres, hnum⟩ := entry_frame_iff.mp hf
    rw [VmSys.perms, he, Option.map_some, Option.some_inj] at hp
    rw [paged_entry he] at hd
    exact ⟨e, he, hpres, hnum, hp, hd⟩
  refine ⟨hm.coherent.unique, fun i hi hv => hpte _ _ _ _ (hm.coherent.agrees i hi hv), ?_⟩
  intro vpn tick r write hr
  obtain ⟨e, he, hpres, hnum, hperm, -⟩ := hpte _ _ _ _ (hm.coherent.agrees.hit hr)
  have hframe : (m.sys.paged.entry (m.acting, vpn)).frame = some r.pfn :=
    entry_frame_iff.mpr ⟨e, he, hpres, hnum⟩
  have hperm' : m.sys.perms m.acting vpn = some r.permissions := by
    rw [VmSys.perms, he, Option.map_some, hperm]
  have hwalk := pagerAccessPage_spec hm.exact.toSound m.acting vpn write tick
  obtain ⟨res, out, s₁, hacc⟩ : ∃ res out s₁,
      pagerAccessPage m.sys m.acting vpn write tick = (res, out, s₁) := ⟨_, _, _, rfl⟩
  rw [hacc] at hwalk ⊢
  -- the page is resident, so the walk hits or is refused
  cases hwalk with
  | error herr _ =>
    cases herr with
    | addr hnone => simp [VmSys.pte, hnone] at he
    | perm hp hbad =>
      rw [hperm', Option.some_inj] at hp
      rw [← hp] at hbad
      rw [if_pos ((and_reqPerm r.permissions write).resolve_right hbad)]
    | oom habsent _ =>
      rw [hframe] at habsent
      cases habsent
  | hit hf hp hok =>
    rw [hperm', Option.some_inj] at hp
    rw [hframe] at hf
    rw [if_neg]
    · exact ⟨rfl, hf.symm⟩
    · rw [hp, hok]
      cases write <;> decide
  | fault habsent =>
    rw [hframe] at habsent
    cases habsent

end Mosrt
