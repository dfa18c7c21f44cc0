/-
Paged memory against a flat byte array per process.

`flat events` is the flat memory after the successful writes `events`.  The paged
memory shows it (`VmSys.Shows`) as long as no page access throws data away
(`discardsData`) and no write fails after its first byte (`outOfMemory`):

* `Translated.value` — a translation that discards nothing changes no page;
* `vmReadByte_shows`, `vmWriteByte_shows` — one byte of a call;
* `paged_refines_flat` — what a read delivers after any run with these two
  properties;
* `read_after_clean_discard` — a run without the first.  A page written, swapped
  out and read back is clean, and its slot was given up with the read; the next
  eviction takes it for a page whose contents are safe and drops it.
-/
import Mosrt.TlbCoherence

namespace Mosrt

variable {s s' : VmSys} {pid : ℤ} {vpn tick : ℕ} {write : Bool} {r : Option ℕ}
  {res : PagerResult} {out : Option ℕ} {st : PagedStore PageKey ℕ ℕ PageContents} {t : TlbState}

/-! ### Flat memory -/

/-- A successful call of `vm_write_mem`. -/
structure WriteEvent where
  pid : ℤ
  virtAddr : ℕ
  src : List UInt8

/-- The flat memories of all processes after one more write. -/
def flatWrite (mem : ℤ → ℕ → UInt8) (e : WriteEvent) : ℤ → ℕ → UInt8 :=
  fun p a =>
    if p = e.pid ∧ e.virtAddr ≤ a ∧ a < e.virtAddr + e.src.length then e.src.getD (a - e.virtAddr) 0
    else mem p a

/-- The last byte each process wrote at each address, `0` where it wrote none. -/
def flat (events : List WriteEvent) : ℤ → ℕ → UInt8 := events.foldl flatWrite fun _ _ => 0

theorem flat_append (events : List WriteEvent) (e : WriteEvent) :
    flat (events ++ [e]) = flatWrite (flat events) e := by
  rw [flat, List.foldl_append]
  rfl

theorem flatWrite_nil (mem : ℤ → ℕ → UInt8) (pid : ℤ) (virtAddr : ℕ) :
    flatWrite mem ⟨pid, virtAddr, []⟩ = mem := by
  funext p a
  rw [flatWrite, if_neg]
  simp only [List.length_nil]
  omega

/-- One more byte of a write. -/
theorem flatWrite_take_succ {mem : ℤ → ℕ → UInt8} {virtAddr i : ℕ} {src : List UInt8} {b : UInt8}
    (hb : src[i]? = some b) (p : ℤ) (a : ℕ) :
    flatWrite mem ⟨pid, virtAddr, src.take (i + 1)⟩ p a =
      if p = pid ∧ a = virtAddr + i then b
      else flatWrite mem ⟨pid, virtAddr, src.take i⟩ p a := by
  have hi : i < src.length := (List.getElem?_eq_some_iff.mp hb).1
  have hlen : (src.take i).length = i := by rw [List.length_take]; omega
  have hlen' : (src.take (i + 1)).length = i + 1 := by rw [List.length_take]; omega
  simp only [flatWrite, hlen, hlen']
  by_cases hp : p = pid
  · by_cases ha : a = virtAddr + i
    · subst ha
      rw [if_pos ⟨hp, by omega, by omega⟩, if_pos ⟨hp, rfl⟩, Nat.add_sub_cancel_left, List.getD,
        List.getElem?_take_of_lt (by omega), hb]
      rfl
    · by_cases hin : virtAddr ≤ a ∧ a < virtAddr + i
      · rw [if_pos ⟨hp, hin.1, by omega⟩, if_neg (by tauto), if_pos ⟨hp, hin⟩, List.getD, List.getD,
          List.getElem?_take_of_lt (by omega), List.getElem?_take_of_lt (by omega)]
      · rw [if_neg (by omega), if_neg (by tauto), if_neg (by tauto)]
  · rw [if_neg (by tauto), if_neg (by tauto), if_neg (by tauto)]

/-! ### What loses data -/

/-- A page access by `pid` would evict a clean page whose frame is not all zeros. -/
def VmSys.discardsData (s : VmSys) (pid : ℤ) (vpn : ℕ) (write : Bool) : Bool :=
  match s.vms pid with
  | none => false
  | some vm =>
    pageTableValidatePermissions vm.pt vpn (reqPerm write) && !(vm.pt vpn).present &&
      (freeFrame s.frame).isNone &&
      match s.victim pid with
      | none => false
      | some (f, k) =>
        match s.pte k.1 k.2 with
        | none => false
        | some pte => !pte.dirty && decide (frameBytes s.frame f ≠ fun _ => 0)

/-- A page access by `pid` would find no frame. -/
def VmSys.outOfMemory (s : VmSys) (pid : ℤ) (vpn : ℕ) : Bool :=
  match s.pte pid vpn with
  | none => false
  | some pte => !pte.present && s.exhausted pid

/-- Where nothing is discarded, a clean victim is a page of zeros. -/
theorem clean_victim_zero (h : s.discardsData pid vpn write = false) {perm f : ℕ} {k : PageKey}
    (hframe : (s.paged.entry (pid, vpn)).frame = none) (hperm : s.perms pid vpn = some perm)
    (hreq : perm &&& reqPerm write = reqPerm write) (hfull : freeFrame s.frame = none)
    (hvictim : s.victim pid = some (f, k)) (hk : (s.paged.entry k).frame ≠ none)
    (hclean : (s.paged.entry k).dirty = false) : s.paged.ram f = fun _ => 0 := by
  cases hvm : s.vms pid with
  | none => simp [VmSys.perms, VmSys.pte, hvm] at hperm
  | some vm =>
    have hpte : s.pte pid vpn = some (vm.pt vpn) := by simp [VmSys.pte, hvm]
    have hpres : (vm.pt vpn).present = false := by
      simpa [paged_entry hpte, entryOf] using hframe
    have hval : pageTableValidatePermissions vm.pt vpn (reqPerm write) = true := by
      rw [VmSys.perms, hpte, Option.map_some, Option.some_inj] at hperm
      simp [pageTableValidatePermissions, hperm, hreq]
    cases hpte' : s.pte k.1 k.2 with
    | none => simp [VmSys.paged, hpte'] at hk
    | some e =>
      have hdirty : e.dirty = false := by
        simpa [VmSys.paged, hpte', entryOf] using hclean
      show frameBytes s.frame f = _
      simpa [VmSys.discardsData, hvm, hval, hpres, hfull, hvictim, hpte', hdirty] using h

/-! ### Translation changes no value -/

theorem AccessSpec.value (h : AccessSpec s pid vpn write tick res out s') (he : s.paged.Exact)
    (hkeep : s.discardsData pid vpn write = false) (k : PageKey) :
    s'.paged.value (fun _ => 0) k = s.paged.value (fun _ => 0) k := by
  cases h with
  | error _ hsame => rw [hsame.paged]
  | hit _ _ _ hp =>
    rw [hp]
    split_ifs
    · exact PagedStore.value_markDirty k
    · rfl
  | @fault f _ st _ _ _ _ _ hframe hperm hreq hroom _ hfree hmajor hfill hp =>
    have hent := hroom.entry_absent he hframe
    have hst : st.value (fun _ => 0) k = s.paged.value (fun _ => 0) k := by
      cases hroom with
      | free => rfl
      | evicted hfull hvictim hown hev =>
        refine PagedStore.value_evicted he hown hev ?_ k
        intro hclean
        refine clean_victim_zero hkeep hframe hperm hreq hfull hvictim ?_ hclean
        rw [he.owner_claims hown]
        exact Option.some_ne_none _
    rw [← hent] at hframe hmajor
    obtain ⟨hc, -⟩ := hfill.eq_value hframe hmajor
    rw [hp, hc, PagedStore.value_load (hroom.exact he) hfree, hst]

theorem discardsData_lookedUp (v n : ℕ) :
    (s.lookedUp v n).discardsData pid vpn write = s.discardsData pid vpn write := by
  rw [VmSys.discardsData, victim_lookedUp, VmSys.discardsData]
  rfl

/-- A translation that discards nothing changes no page. -/
theorem Translated.value (h : Translated s pid vpn write tick r s') (he : s.paged.Exact)
    (hkeep : s.discardsData pid vpn write = false) (k : PageKey) :
    s'.paged.value (fun _ => 0) k = s.paged.value (fun _ => 0) k := by
  cases h with
  | tlbRefused _ _ => rfl
  | tlbServed _ _ hp =>
    rw [hp]
    split_ifs
    · exact PagedStore.value_markDirty k
    · rfl
  | failed _ _ hsame =>
    rw [hsame.paged]
    rfl
  | walked _ hacc _ hp =>
    rw [hp]
    exact hacc.value he ((discardsData_lookedUp vpn tick).trans hkeep) k

/-! ### Showing a flat memory -/

/-- The pages of all processes hold the bytes of `mem`, and `pid` may act on them. -/
structure VmSys.Shows (s : VmSys) (pid : ℤ) (mem : ℤ → ℕ → UInt8) : Prop where
  ok : s.Ok pid
  perms : ∀ p v perm, s.perms p v = some perm → perm = pageTableGetSegmentDefaultPermissions v
  value : ∀ p v (off : Fin vmPageSize),
    s.paged.value (fun _ => 0) (p, v) off = mem p (v * vmPageSize + off)

variable {mem : ℤ → ℕ → UInt8}

theorem SameMemory.shows (h : SameMemory s s') (hs : s.Shows pid mem) : s'.Shows pid mem where
  ok := h.ok hs.ok
  perms := by rw [h.perms]; exact hs.perms
  value := by rw [h.paged]; exact hs.value

theorem Translated.shows (h : Translated s pid vpn write tick r s') (hs : s.Shows pid mem)
    (hkeep : s.discardsData pid vpn write = false) : s'.Shows pid mem where
  ok := h.ok hs.ok
  perms := by rw [h.perms]; exact hs.perms
  value := by
    intro p v off
    rw [h.value hs.ok.exact hkeep]
    exact hs.value p v off

/-- A byte that is delivered is the one shown at its address. -/
theorem vmReadByte_shows {addr : ℕ} (hs : s.Shows pid mem)
    (hkeep : s.discardsData pid (vpnOf addr) false = false) :
    (vmReadByte s pid addr tick).2.Shows pid mem ∧
      ∀ b, (vmReadByte s pid addr tick).1 = some b → b = mem pid addr := by
  obtain ⟨r, s₁, htr, heq⟩ := vmReadByte_spec hs.ok.exact.toSound pid addr tick
  have hs₁ := htr.shows hs hkeep
  rw [heq]
  refine ⟨hs₁, ?_⟩
  intro b hb
  cases r with
  | none => cases hb
  | some f =>
    have hf := htr.frame hs.ok.coherent
    rw [Option.map_some, Option.some_inj] at hb
    have hbyte : b = s₁.paged.ram f (pageOffset addr) :=
      hb.symm.trans (frameReadByte_eq (hs₁.ok.frame_lt hf) (pageOffset addr))
    rw [hbyte, ← PagedStore.value_of_frame (fun _ => 0) hf, hs₁.value, addr_eq]

/-- A byte that is stored is shown at its address, and nothing else changes. -/
theorem vmWriteByte_shows {addr : ℕ} (hs : s.Shows pid mem) (hvm : (s.vms pid).isSome)
    (b : UInt8) (tick : ℕ) (hkeep : s.discardsData pid (vpnOf addr) true = false) :
    if (vmWriteByte s pid addr b tick).1 then
      (vmWriteByte s pid addr b tick).2.Shows pid
        (fun p a => if p = pid ∧ a = addr then b else mem p a)
    else (vmWriteByte s pid addr b tick).2.Shows pid mem := by
  obtain ⟨r, s₁, htr, heq⟩ := vmWriteByte_spec hs.ok.exact.toSound hvm addr b tick
  have hs₁ := htr.shows hs hkeep
  rw [heq]
  cases r with
  | none => exact hs₁
  | some f =>
    have hf := htr.frame hs.ok.coherent
    have hlt := hs₁.ok.frame_lt hf
    show (s₁.setByte f (offsetOf addr) b).Shows pid _
    refine ⟨hs₁.ok.setByte hlt addr b, hs₁.perms, ?_⟩
    intro p v off
    rw [paged_setByte hlt, PagedStore.value_store hs₁.ok.exact hf]
    by_cases hk : (p, v) = (pid, vpnOf addr)
    · obtain ⟨hp, hv⟩ := Prod.mk.inj hk
      rw [if_pos hk, ← PagedStore.value_of_frame (fun _ => 0) hf, Function.update_apply]
      by_cases ho : off = pageOffset addr
      · rw [if_pos ho, if_pos ⟨hp, (addr_eq_iff addr v off).mpr ⟨hv, ho⟩⟩]
      · rw [if_neg ho, if_neg fun h => ho ((addr_eq_iff addr v off).mp h.2).2, hs₁.value, hp, hv]
    · rw [if_neg hk, hs₁.value, if_neg]
      rintro ⟨hp, ha⟩
      exact hk (Prod.ext hp ((addr_eq_iff addr v off).mp ha).1)

/-! ### When a byte is not stored -/

/-- A translation fails for want of permission or of memory. -/
theorem Translated.fails (h : Translated s pid vpn write tick none s') (hc : s.Coherent pid)
    (hvm : (s.vms pid).isSome) :
    (∃ perm, s.perms pid vpn = some perm ∧ perm &&& reqPerm write ≠ reqPerm write) ∨
      (s.paged.entry (pid, vpn)).frame = none ∧ s.exhausted pid = true := by
  cases h with
  | tlbRefused hr hzero =>
    obtain ⟨-, hperm, -⟩ := hc.agrees.hit hr
    refine Or.inl ⟨_, hperm, ?_⟩
    rw [hzero]
    cases write <;> decide
  | failed _ herr _ =>
    cases herr with
    | addr hnone =>
      rw [hnone] at hvm
      cases hvm
    | perm hperm hreq => exact Or.inl ⟨_, hperm, hreq⟩
    | oom hframe hex => exact Or.inr ⟨hframe, hex⟩

/-- A translation succeeds only with permission. -/
theorem Translated.permitted {f : ℕ} (h : Translated s pid vpn write tick (some f) s')
    (hc : s.Coherent pid) :
    ∃ perm, s.perms pid vpn = some perm ∧ perm &&& reqPerm write = reqPerm write := by
  cases h with
  | tlbServed hr hne =>
    obtain ⟨-, hperm, -⟩ := hc.agrees.hit hr
    exact ⟨_, hperm, (and_reqPerm _ write).resolve_left hne⟩
  | walked _ hacc =>
    cases hacc with
    | hit _ hperm hreq => exact ⟨_, hperm, hreq⟩
    | fault _ hperm hreq => exact ⟨_, hperm, hreq⟩

theorem vmWriteByte_true {addr : ℕ} {b : UInt8} (hs : s.Shows pid mem) (hvm : (s.vms pid).isSome)
    (h : (vmWriteByte s pid addr b tick).1 = true) :
    vmSegTextPages + vmSegRodataPages ≤ vpnOf addr := by
  obtain ⟨r, s₁, htr, heq⟩ := vmWriteByte_spec hs.ok.exact.toSound hvm addr b tick
  rw [heq] at h
  cases r with
  | none => cases h
  | some f =>
    obtain ⟨perm, hperm, hreq⟩ := htr.permitted hs.ok.coherent
    rw [hs.perms _ _ _ hperm] at hreq
    exact (writable_iff _).mp hreq

theorem vmWriteByte_false {addr : ℕ} {b : UInt8} (hs : s.Shows pid mem) (hvm : (s.vms pid).isSome)
    (hpage : vmSegTextPages + vmSegRodataPages ≤ vpnOf addr)
    (h : (vmWriteByte s pid addr b tick).1 = false) : s.outOfMemory pid (vpnOf addr) = true := by
  obtain ⟨r, s₁, htr, heq⟩ := vmWriteByte_spec hs.ok.exact.toSound hvm addr b tick
  rw [heq] at h
  cases r with
  | some f => cases h
  | none =>
    rcases htr.fails hs.ok.coherent hvm with ⟨perm, hperm, hreq⟩ | ⟨hframe, hex⟩
    · rw [hs.perms _ _ _ hperm] at hreq
      exact absurd ((writable_iff _).mpr hpage) hreq
    · obtain ⟨vm, hvm⟩ := Option.isSome_iff_exists.mp hvm
      have hpte : s.pte pid (vpnOf addr) = some (vm.pt (vpnOf addr)) := by simp [VmSys.pte, hvm]
      have hpres : (vm.pt (vpnOf addr)).present = false := by
        simpa [paged_entry hpte, entryOf] using hframe
      simp [VmSys.outOfMemory, hpte, hpres, hex]

/-! ### Calls -/

/-- No iteration of a read discards data. -/
def readKeeps (pid : ℤ) (virtAddr i : ℕ) (s : VmSys) : Bool :=
  !s.discardsData pid (vpnOf (currAddr virtAddr i)) false

/-- No iteration of a write discards data, and none after the first runs out of memory. -/
def writeKeeps (pid : ℤ) (virtAddr i : ℕ) (s : VmSys) : Bool :=
  !s.discardsData pid (vpnOf (currAddr virtAddr i)) true &&
    (i == 0 || !s.outOfMemory pid (vpnOf (currAddr virtAddr i)))

theorem vmReadMem_shows {virtAddr len : ℕ} (hs : s.Shows pid mem)
    (hok : virtAddr + len ≤ vmVirtAddrSpaceSize →
      readAlong pid virtAddr tick (readKeeps pid virtAddr) len 0 s = true) :
    (vmReadMem s pid virtAddr len tick).2.Shows pid mem ∧
      ∀ bs, (vmReadMem s pid virtAddr len tick).1 = some bs →
        bs.length = len ∧ ∀ j b, bs[j]? = some b → b = mem pid (virtAddr + j) := by
  refine vmReadMem_induct (Q := fun a b => b = mem pid a) (fun _ _ h hs => h.shows hs) ?_ hok hs
  intro i s hkeep hs
  exact vmReadByte_shows hs (by simpa [readKeeps] using hkeep)

/-- No iteration of a write discards data. -/
def writeSpares (pid : ℤ) (virtAddr i : ℕ) (s : VmSys) : Bool :=
  !s.discardsData pid (vpnOf (currAddr virtAddr i)) true

/-- A write shows the bytes it stored, whether it succeeds or not. -/
theorem vmWriteMem_stored {virtAddr : ℕ} {src : List UInt8} (hs : s.Shows pid mem)
    (hok : virtAddr + src.length ≤ vmVirtAddrSpaceSize →
      writeAlong pid virtAddr tick (writeSpares pid virtAddr) src 0 s = true) :
    (vmWriteMem s pid virtAddr src tick).2.2.Shows pid
      (flatWrite mem ⟨pid, virtAddr, src.take (vmWriteMem s pid virtAddr src tick).2.1⟩) := by
  have hnone : s.Shows pid (flatWrite mem ⟨pid, virtAddr, src.take 0⟩) := by
    rw [List.take_zero, flatWrite_nil]
    exact hs
  refine vmWriteMem_induct
    (I := fun i s => s.Shows pid (flatWrite mem ⟨pid, virtAddr, src.take i⟩))
    (E := fun i s => s.Shows pid (flatWrite mem ⟨pid, virtAddr, src.take i⟩))
    (fun _ _ _ h hs => h.shows hs) (fun _ _ hs => hs.ok.exact.toSound) ?_ (fun _ hs => hs) hok
    hnone hnone
  intro i b s hb hlt hvm hkeep hs
  have haddr : currAddr virtAddr i = virtAddr + i := Nat.mod_eq_of_lt hlt
  rw [writeSpares, haddr, Bool.not_eq_true'] at hkeep
  have heq : flatWrite mem ⟨pid, virtAddr, src.take (i + 1)⟩ = _ :=
    funext₂ (flatWrite_take_succ hb)
  rw [heq]
  exact vmWriteByte_shows hs hvm b tick hkeep

/-- A write shows all its bytes if it succeeds and none if it fails. -/
theorem vmWriteMem_shows {virtAddr : ℕ} {src : List UInt8} (hs : s.Shows pid mem)
    (hok : virtAddr + src.length ≤ vmVirtAddrSpaceSize →
      writeAlong pid virtAddr tick (writeKeeps pid virtAddr) src 0 s = true) :
    (vmWriteMem s pid virtAddr src tick).2.2.Shows pid
      (if (vmWriteMem s pid virtAddr src tick).1 then flatWrite mem ⟨pid, virtAddr, src⟩
        else mem) := by
  -- before byte `i` the first `i` bytes are shown, and the call started on a writable page
  have hend := vmWriteMem_induct
    (I := fun i s => s.Shows pid (flatWrite mem ⟨pid, virtAddr, src.take i⟩) ∧
      (0 < i → vmSegTextPages + vmSegRodataPages ≤ vpnOf virtAddr))
    (E := fun k s => s.Shows pid (flatWrite mem ⟨pid, virtAddr, src.take k⟩) ∧
      (k = src.length ∨ k = 0))
    (fun _ _ _ h hs => ⟨h.shows hs.1, hs.2⟩) (fun _ _ hs => hs.1.ok.exact.toSound) ?_
    (fun _ hs => ⟨hs.1, Or.inl rfl⟩) hok ?_ ?_
  · obtain ⟨hshows, hcount⟩ := hend
    cases hres : (vmWriteMem s pid virtAddr src tick).1 with
    | true =>
      rw [vmWriteMem_true hres, List.take_length] at hshows
      rw [if_pos rfl]
      exact hshows
    | false =>
      have hzero : (vmWriteMem s pid virtAddr src tick).2.1 = 0 := by
        rcases vmWriteMem_false hres with h | h
        · exact h
        · exact hcount.resolve_left h
      rw [hzero, List.take_zero, flatWrite_nil] at hshows
      rw [if_neg Bool.false_ne_true]
      exact hshows
  · rintro i b s hb hlt hvm hkeep ⟨hs, hpage⟩
    have haddr : currAddr virtAddr i = virtAddr + i := Nat.mod_eq_of_lt hlt
    rw [writeKeeps, haddr, Bool.and_eq_true, Bool.not_eq_true', Bool.or_eq_true, beq_iff_eq,
      Bool.not_eq_true'] at hkeep
    have hbyte := vmWriteByte_shows hs hvm b tick hkeep.1
    split_ifs at hbyte ⊢ with hstored
    · refine ⟨?_, ?_⟩
      · have heq : flatWrite mem ⟨pid, virtAddr, src.take (i + 1)⟩ = _ :=
          funext₂ (flatWrite_take_succ hb)
        rw [heq]
        exact hbyte
      · intro _
        rcases Nat.eq_zero_or_pos i with rfl | hi
        · exact vmWriteByte_true hs hvm hstored
        · exact hpage hi
    · refine ⟨hbyte, Or.inr ?_⟩
      -- a later byte lies on a writable page too, so only memory could be missing
      by_contra hi
      have hle : vpnOf virtAddr ≤ vpnOf (virtAddr + i) :=
        Nat.div_le_div_right (Nat.le_add_right _ _)
      have hout := vmWriteByte_false hs hvm ((hpage (Nat.pos_of_ne_zero hi)).trans hle)
        (Bool.not_eq_true _ ▸ hstored)
      rw [hkeep.2.resolve_left hi] at hout
      cases hout
  · rw [List.take_zero, flatWrite_nil]
    exact ⟨hs, fun h => absurd h (lt_irrefl _)⟩
  · rw [List.take_zero, flatWrite_nil]
    exact ⟨hs, Or.inr rfl⟩

/-! ### Runs -/

/-- The operation loses no data. -/
def MemOp.keeps (m : MemSys) : MemOp → Bool
  | .read virtAddr len tick =>
    decide (vmVirtAddrSpaceSize < virtAddr + len) ||
      readAlong m.acting virtAddr tick (readKeeps m.acting virtAddr) len 0 m.sys
  | .write virtAddr src tick =>
    decide (vmVirtAddrSpaceSize < virtAddr + src.length) ||
      writeAlong m.acting virtAddr tick (writeKeeps m.acting virtAddr) src 0 m.sys
  | _ => true

/-- The successful write an operation performs, if it does. -/
def MemOp.written (m : MemSys) : MemOp → List WriteEvent
  | .write virtAddr src tick =>
    if (vmWriteMem m.sys m.acting virtAddr src tick).1 then [⟨m.acting, virtAddr, src⟩] else []
  | _ => []

theorem vmSpawn_defaultPerms
    (h : ∀ p v perm, s.perms p v = some perm → perm = pageTableGetSegmentDefaultPermissions v)
    (q : ℤ) (p : ℤ) (v perm : ℕ) (hp : (vmSpawn s q).perms p v = some perm) :
    perm = pageTableGetSegmentDefaultPermissions v := by
  rw [vmSpawn] at hp
  split_ifs at hp
  · by_cases hq : p = q
    · subst hq
      simp only [VmSys.perms, VmSys.pte, Function.update_self, Option.map_some,
        Option.some_inj] at hp
      exact hp.symm
    · refine h p v perm ?_
      simpa [VmSys.perms, VmSys.pte, hq] using hp
  · exact h p v perm hp

theorem MemOp.exec_shows (op : MemOp) {m : MemSys} {events : List WriteEvent}
    (hm : m.sys.Shows m.acting (flat events)) (hkeep : op.keeps m = true) :
    (op.exec m).sys.Shows (op.exec m).acting (flat (events ++ op.written m)) := by
  have hok := MemOp.exec_ok op hm.ok
  cases op with
  | create q =>
    simp only [MemOp.written, List.append_nil]
    refine ⟨hok, vmSpawn_defaultPerms hm.perms q, ?_⟩
    rw [MemOp.exec, vmSpawn_paged]
    exact hm.value
  | dispatch q =>
    simp only [MemOp.written, List.append_nil]
    exact ⟨hok, hm.perms, hm.value⟩
  | read virtAddr len tick =>
    simp only [MemOp.written, List.append_nil]
    refine (vmReadMem_shows hm ?_).1
    intro hrange
    simpa [MemOp.keeps, Nat.not_lt.mpr hrange] using hkeep
  | write virtAddr src tick =>
    have hrun : virtAddr + src.length ≤ vmVirtAddrSpaceSize →
        writeAlong m.acting virtAddr tick (writeKeeps m.acting virtAddr) src 0 m.sys = true := by
      intro hrange
      simpa [MemOp.keeps, Nat.not_lt.mpr hrange] using hkeep
    have hshows := vmWriteMem_shows hm hrun
    rw [MemOp.written]
    split_ifs at hshows ⊢ with hres
    · rw [flat_append]
      exact hshows
    · rw [List.append_nil]
      exact hshows
  | setPolicy name =>
    simp only [MemOp.written, List.append_nil]
    exact (pagerSetPolicy_sameMemory m.sys name).shows hm

theorem memInit_shows : memInit.sys.Shows memInit.acting (flat []) where
  ok := memInit_ok
  perms := by
    intro p v perm h
    cases h
  value := fun _ _ _ => rfl

theorem MemOp.run_shows {ops : List MemOp}
    (hok : Runs.Along MemOp.exec (fun m op => op.keeps m = true) memInit ops) :
    (Runs.run MemOp.exec memInit ops).sys.Shows (Runs.run MemOp.exec memInit ops).acting
      (flat (Runs.history MemOp.exec (fun m op => op.written m) memInit ops)) :=
  Runs.run_history (I := fun (m : MemSys) events => m.sys.Shows m.acting (flat events))
    (fun _ _ op hm hkeep => MemOp.exec_shows op hm hkeep) memInit_shows hok

/-- Bytes that are known one by one. -/
theorem eq_map_range {len : ℕ} {bs : List UInt8} {f : ℕ → UInt8} (hlen : bs.length = len)
    (hget : ∀ j b, bs[j]? = some b → b = f j) : bs = (List.range len).map f := by
  refine List.ext_getElem? ?_
  intro j
  rcases Nat.lt_or_ge j len with hj | hj
  · have hsome : bs[j]? = some (bs.get ⟨j, by omega⟩) := List.getElem?_eq_getElem (by omega)
    rw [hsome, hget j _ hsome, List.getElem?_map, List.getElem?_range hj, Option.map_some]
  · rw [List.getElem?_eq_none (by omega), List.getElem?_eq_none (by simpa using hj)]

/-- **Paged memory refines a flat byte array per process**, in runs that lose no data: a
successful read after the operations `ops` delivers the last byte its process wrote
successfully at each address, and `0` where it wrote none. -/
theorem paged_refines_flat (ops : List MemOp) (virtAddr len tick : ℕ) (bs : List UInt8)
    (hok : Runs.Along MemOp.exec (fun m op => op.keeps m = true) memInit
      (ops ++ [.read virtAddr len tick]))
    (hread : (vmReadMem (Runs.run MemOp.exec memInit ops).sys
      (Runs.run MemOp.exec memInit ops).acting virtAddr len tick).1 = some bs) :
    bs = (List.range len).map fun i =>
      flat (Runs.history MemOp.exec (fun m op => op.written m) memInit ops)
        (Runs.run MemOp.exec memInit ops).acting (virtAddr + i) := by
  rw [Runs.along_append] at hok
  obtain ⟨hops, hlast, -⟩ := hok
  have hshows := MemOp.run_shows hops
  set m := Runs.run MemOp.exec memInit ops
  have hrun : virtAddr + len ≤ vmVirtAddrSpaceSize →
      readAlong m.acting virtAddr tick (readKeeps m.acting virtAddr) len 0 m.sys = true := by
    intro hrange
    simpa [MemOp.keeps, Nat.not_lt.mpr hrange] using hlast
  obtain ⟨-, hbytes⟩ := vmReadMem_shows hshows hrun
  obtain ⟨hlen, hget⟩ := hbytes bs hread
  exact eq_map_range hlen hget

/-- One process writes to its page `64` and fills memory, so that this page is swapped out; it
comes back with `touch`, and is evicted once more. -/
def evictionRun (touch : MemOp) : List MemOp :=
  [.create 1, .dispatch 1, .write 0x4000 [0xAB] 0] ++
  (List.range 63).map (fun n => .read (0x4100 + n * vmPageSize) 1 0) ++
  [.read 0x8000 1 0, .setPolicy "fifo", touch, .setPolicy "fifo", .read 0x8000 1 0]

set_option maxRecDepth 100000 in
/-- If it comes back with a write, both bytes are read back after the second eviction. -/
theorem paged_refines_flat_evicted :
    Runs.Along MemOp.exec (fun m op => op.keeps m = true) memInit
        (evictionRun (.write 0x4001 [0xCD] 0) ++ [.read 0x4000 2 0]) ∧
      [0xAB, 0xCD] = (List.range 2).map fun i =>
        flat (Runs.history MemOp.exec (fun m op => op.written m) memInit
          (evictionRun (.write 0x4001 [0xCD] 0))) 1 (0x4000 + i) := by
  have hok : Runs.Along MemOp.exec (fun m op => op.keeps m = true) memInit
      (evictionRun (.write 0x4001 [0xCD] 0) ++ [.read 0x4000 2 0]) := by decide +kernel
  exact ⟨hok, paged_refines_flat _ 0x4000 2 0 [0xAB, 0xCD] hok (by decide +kernel)⟩

set_option maxRecDepth 100000 in
/-- If it comes back with a read, it comes back clean, and its slot is gone when it is evicted
again: a successful read delivers `0` where the process wrote `0xAB`. -/
theorem read_after_clean_discard :
    let m := Runs.run MemOp.exec memInit (evictionRun (.read 0x4000 1 0))
    (vmReadMem m.sys m.acting 0x4000 1 0).1 = some [0] ∧
      flat (Runs.history MemOp.exec (fun m op => op.written m) memInit
        (evictionRun (.read 0x4000 1 0))) m.acting 0x4000 = 0xAB := by
  decide +kernel

end Mosrt
