/-
What translating one address can do, and how the byte loops are reasoned about.

* `Translated` — the outcomes of `vmTranslateRead` and `vmTranslateWrite`: refused
  or served by the TLB, or handed to the pager (`AccessSpec`);
* `vmReadByte_spec`, `vmWriteByte_spec` — one iteration of the loops, over it;
* `vmReadMem_induct`, `vmWriteMem_induct` — what every iteration keeps, a call
  keeps; the index counts the bytes already read or stored.
-/
import Mosrt.PagerSpec
import Mosrt.Vm

namespace Mosrt

variable {s s' : VmSys} {pid : ℤ} {vpn tick : ℕ} {write : Bool}

/-! ### Translation -/

/-- The state with the TLB as a lookup of `vpn` leaves it. -/
def VmSys.lookedUp (s : VmSys) (vpn tick : ℕ) : VmSys :=
  { s with tlb := (tlbLookup s.tlb vpn tick).2 }

/-- The outcomes of translating a page number: the frame and the state after. -/
inductive Translated (s : VmSys) (pid : ℤ) (vpn : ℕ) (write : Bool) (tick : ℕ) :
    Option ℕ → VmSys → Prop
  | tlbRefused {r : TlbHit} : (tlbLookup s.tlb vpn tick).1 = some r →
      r.permissions &&& reqPerm write = 0 →
      Translated s pid vpn write tick none (s.lookedUp vpn tick)
  | tlbServed {r : TlbHit} {s' : VmSys} : (tlbLookup s.tlb vpn tick).1 = some r →
      r.permissions &&& reqPerm write ≠ 0 →
      s'.paged = (if write then s.paged.markDirty (pid, vpn) else s.paged) →
      (s'.tlb = (tlbLookup s.tlb vpn tick).2 ∧ (write = true → r.dirty = true) ∨
        s'.tlb = tlbInsert (tlbLookup s.tlb vpn tick).2 vpn r.pfn true r.permissions tick ∧
          write = true) →
      s'.perms = s.perms → (∀ q, (s'.vms q).isSome = (s.vms q).isSome) →
      Translated s pid vpn write tick (some r.pfn) s'
  | failed {res : PagerResult} {s' : VmSys} : (tlbLookup s.tlb vpn tick).1 = none →
      AccessError s pid vpn write res → SameMemory (s.lookedUp vpn tick) s' →
      Translated s pid vpn write tick none s'
  | walked {res : PagerResult} {f perm : ℕ} {s₁ s' : VmSys} :
      (tlbLookup s.tlb vpn tick).1 = none →
      AccessSpec (s.lookedUp vpn tick) pid vpn write tick res (some f) s₁ →
      s₁.perms pid vpn = some perm → s'.paged = s₁.paged →
      s'.tlb = tlbInsert s₁.tlb vpn f (s₁.paged.entry (pid, vpn)).dirty perm tick →
      s'.perms = s₁.perms → (∀ q, (s'.vms q).isSome = (s₁.vms q).isSome) →
      Translated s pid vpn write tick (some f) s'

theorem countFault_pt (vm : VmState) (res : PagerResult) : (vm.countFault res).pt = vm.pt := by
  cases res <;> rfl

/-- Counting a fault is invisible to the store. -/
theorem paged_countFault (res : PagerResult) :
    (s.modifyVm pid fun vm => vm.countFault res).paged = s.paged :=
  paged_modifyVm fun vm _ v => by rw [countFault_pt]

theorem perms_countFault (res : PagerResult) :
    (s.modifyVm pid fun vm => vm.countFault res).perms = s.perms :=
  perms_modifyVm fun vm _ v => by rw [countFault_pt]

theorem pte_countFault (res : PagerResult) (p : ℤ) (v : ℕ) :
    (s.modifyVm pid fun vm => vm.countFault res).pte p v = s.pte p v := by
  rw [modifyVm_pte]
  split_ifs with hp
  · subst hp
    rw [VmSys.pte]
    simp only [countFault_pt]
  · rfl

theorem victim_lookedUp (v t : ℕ) : (s.lookedUp v t).victim pid = s.victim pid := by
  rw [VmSys.victim, VmSys.victim, pagerPickVictim, pagerPickVictim, VmSys.lookedUp]
  cases s.vms pid <;> rfl

theorem exhausted_lookedUp (v t : ℕ) : (s.lookedUp v t).exhausted pid = s.exhausted pid := by
  rw [VmSys.exhausted, victim_lookedUp, VmSys.exhausted]
  rfl

/-- The reason for a failure does not involve the TLB. -/
theorem AccessError.of_lookedUp {res : PagerResult} {v t : ℕ}
    (h : AccessError (s.lookedUp v t) pid vpn write res) : AccessError s pid vpn write res := by
  cases h with
  | addr h => exact .addr h
  | perm h h' => exact .perm h h'
  | oom h h' => exact .oom h ((exhausted_lookedUp v t).symm.trans h')

/-- An access that hands out a frame did not fail, and the page's entry is there after it. -/
theorem AccessSpec.of_some {res : PagerResult} {f : ℕ}
    (h : AccessSpec s pid vpn write tick res (some f) s') :
    res.isError = false ∧ ∃ perm, s'.perms pid vpn = some perm := by
  cases h with
  | hit _ hperm _ _ _ hperms => exact ⟨rfl, _, (congrFun₂ hperms _ _).trans hperm⟩
  | @fault _ _ _ _ _ _ isMajor _ _ hperm _ _ _ _ _ _ _ _ hperms =>
    refine ⟨?_, _, (congrFun₂ hperms _ _).trans hperm⟩
    cases isMajor <;> rfl

theorem AccessSpec.of_none {res : PagerResult} (h : AccessSpec s pid vpn write tick res none s') :
    AccessError s pid vpn write res ∧ SameMemory s s' := by
  cases h with
  | error he hsame => exact ⟨he, hsame⟩

theorem vmMiss_spec (hsound : s.paged.Sound) (hmiss : (tlbLookup s.tlb vpn tick).1 = none) :
    Translated s pid vpn write tick (vmMiss (s.lookedUp vpn tick) pid vpn write tick).1
      (vmMiss (s.lookedUp vpn tick) pid vpn write tick).2 := by
  have hspec := pagerAccessPage_spec (s := s.lookedUp vpn tick) hsound pid vpn write tick
  rw [vmMiss]
  obtain ⟨res, out, s₁, hacc⟩ : ∃ res out s₁,
      pagerAccessPage (s.lookedUp vpn tick) pid vpn write tick = (res, out, s₁) := ⟨_, _, _, rfl⟩
  rw [hacc] at hspec ⊢
  dsimp only at hspec ⊢
  cases out with
  | none =>
    obtain ⟨he, hsame⟩ := hspec.of_none
    rw [he.isError, if_pos rfl]
    exact .failed hmiss he.of_lookedUp hsame
  | some f =>
    obtain ⟨hres, perm, hperm⟩ := hspec.of_some
    obtain ⟨e, he, hep⟩ := Option.map_eq_some_iff.mp hperm
    rw [hres, if_neg (by simp), pte_countFault, he]
    refine .walked hmiss hspec hperm ?_ ?_ ?_ ?_
    · exact (paged_countFault res).trans rfl
    · rw [paged_entry he, ← hep]
      rfl
    · exact (perms_countFault res).trans rfl
    · exact modifyVm_isSome _

theorem vmTranslateRead_spec (hsound : s.paged.Sound) (pid : ℤ) (vpn tick : ℕ) :
    Translated s pid vpn false tick (vmTranslateRead s pid vpn tick).1
      (vmTranslateRead s pid vpn tick).2 := by
  rw [vmTranslateRead]
  cases hr : (tlbLookup s.tlb vpn tick).1 with
  | none => exact vmMiss_spec hsound hr
  | some r =>
    dsimp only
    by_cases hp : r.permissions &&& vmProtRead = 0
    · rw [if_pos hp]
      exact .tlbRefused hr hp
    · rw [if_neg hp]
      refine .tlbServed hr hp ?_ (Or.inl ⟨rfl, by simp⟩) ?_ ?_
      · exact paged_modifyPte_soft (s := s) (f := fun e => { e with accessed := true }) fun _ => rfl
      · exact perms_modifyPte (s := s) (f := fun e => { e with accessed := true }) fun _ => rfl
      · exact modifyPte_isSome (s := s) fun e => { e with accessed := true }

theorem vmTranslateWrite_spec (hsound : s.paged.Sound) (hvm : (s.vms pid).isSome) (vpn tick : ℕ) :
    Translated s pid vpn true tick (vmTranslateWrite s pid vpn tick).1
      (vmTranslateWrite s pid vpn tick).2 := by
  rw [vmTranslateWrite]
  cases hr : (tlbLookup s.tlb vpn tick).1 with
  | none => exact vmMiss_spec hsound hr
  | some r =>
    dsimp only
    by_cases hp : r.permissions &&& vmProtWrite = 0
    · rw [if_pos hp]
      exact .tlbRefused hr hp
    · rw [if_neg hp]
      set mark : Pte → Pte := fun e => { e with accessed := true, dirty := true } with hmark
      obtain ⟨vm, hvm⟩ := Option.isSome_iff_exists.mp hvm
      have hpte : s.pte pid vpn = some (vm.pt vpn) := by simp [VmSys.pte, hvm]
      have hpaged : (s.modifyPte pid vpn mark).paged = s.paged.markDirty (pid, vpn) := by
        rw [paged_modifyPte hpte, PagedStore.markDirty, paged_entry hpte]
        rfl
      have hperms : (s.modifyPte pid vpn mark).perms = s.perms := perms_modifyPte fun _ => rfl
      have hsome : ∀ q, ((s.modifyPte pid vpn mark).vms q).isSome = (s.vms q).isSome :=
        modifyPte_isSome mark
      by_cases hd : r.dirty = true
      · rw [if_pos hd]
        exact .tlbServed hr hp hpaged (Or.inl ⟨rfl, fun _ => hd⟩) hperms hsome
      · rw [if_neg hd]
        exact .tlbServed hr hp hpaged (Or.inr ⟨rfl, rfl⟩) hperms hsome

theorem AccessSpec.isSome {res : PagerResult} {out : Option ℕ}
    (h : AccessSpec s pid vpn write tick res out s') (q : ℤ) :
    (s'.vms q).isSome = (s.vms q).isSome := by
  cases h with
  | error _ hsame => exact hsame.procs q
  | hit _ _ _ _ _ _ hsome => exact hsome q
  | fault _ _ _ _ _ _ _ _ _ _ _ hsome => exact hsome q

theorem AccessSpec.perms {res : PagerResult} {out : Option ℕ}
    (h : AccessSpec s pid vpn write tick res out s') : s'.perms = s.perms := by
  cases h with
  | error _ hsame => exact hsame.perms
  | hit _ _ _ _ _ hperms => exact hperms
  | fault _ _ _ _ _ _ _ _ _ _ hperms => exact hperms

variable {r : Option ℕ}

theorem Translated.isSome (h : Translated s pid vpn write tick r s') (q : ℤ) :
    (s'.vms q).isSome = (s.vms q).isSome := by
  cases h with
  | tlbRefused _ _ => rfl
  | tlbServed _ _ _ _ _ hsome => exact hsome q
  | failed _ _ hsame => exact hsame.procs q
  | walked _ hacc _ _ _ _ hsome => exact (hsome q).trans (hacc.isSome q)

theorem Translated.perms (h : Translated s pid vpn write tick r s') : s'.perms = s.perms := by
  cases h with
  | tlbRefused _ _ => rfl
  | tlbServed _ _ _ _ hperms => exact hperms
  | failed _ _ hsame => exact hsame.perms
  | walked _ hacc _ _ _ hperms => exact hperms.trans hacc.perms

/-! ### One byte -/

/-- Reading a byte: a translation and, if it gives a frame, the byte in it. -/
theorem vmReadByte_spec (hsound : s.paged.Sound) (pid : ℤ) (addr tick : ℕ) :
    ∃ r s', Translated s pid (vpnOf addr) false tick r s' ∧
      vmReadByte s pid addr tick =
        (r.map fun f => frameReadByte s'.frame (f * vmPageSize + offsetOf addr), s') := by
  have hspec := vmTranslateRead_spec hsound pid (vpnOf addr) tick
  rw [vmReadByte]
  obtain ⟨r, s', hr⟩ : ∃ r s', vmTranslateRead s pid (vpnOf addr) tick = (r, s') := ⟨_, _, rfl⟩
  rw [hr] at hspec ⊢
  refine ⟨r, s', hspec, ?_⟩
  cases r <;> rfl

/-- The store after byte `off` of frame `f` was set. -/
def VmSys.setByte (s : VmSys) (f off : ℕ) (b : UInt8) : VmSys :=
  { s with frame := frameWriteByte s.frame (f * vmPageSize + off) b }

/-- Writing a byte: a translation and, if it gives a frame, a store into it. -/
theorem vmWriteByte_spec (hsound : s.paged.Sound) (hvm : (s.vms pid).isSome) (addr : ℕ)
    (b : UInt8) (tick : ℕ) :
    ∃ r s', Translated s pid (vpnOf addr) true tick r s' ∧
      vmWriteByte s pid addr b tick =
        (r.isSome, match r with
          | none => s'
          | some f => s'.setByte f (offsetOf addr) b) := by
  have hspec := vmTranslateWrite_spec hsound hvm (vpnOf addr) tick
  rw [vmWriteByte]
  obtain ⟨r, s', hr⟩ : ∃ r s', vmTranslateWrite s pid (vpnOf addr) tick = (r, s') := ⟨_, _, rfl⟩
  rw [hr] at hspec ⊢
  refine ⟨r, s', hspec, ?_⟩
  cases r <;> rfl

theorem offsetOf_lt (addr : ℕ) : offsetOf addr < vmPageSize := Nat.mod_lt _ (by decide)

/-- The offset of an address, as an index into a page. -/
def pageOffset (addr : ℕ) : Fin vmPageSize := ⟨offsetOf addr, offsetOf_lt addr⟩

/-- Page and offset give the address back. -/
theorem addr_eq (addr : ℕ) : vpnOf addr * vmPageSize + (pageOffset addr : ℕ) = addr :=
  Nat.div_add_mod' addr vmPageSize

theorem addr_eq_iff (addr v : ℕ) (off : Fin vmPageSize) :
    v * vmPageSize + off = addr ↔ v = vpnOf addr ∧ off = pageOffset addr := by
  constructor
  · rintro rfl
    have hoff := off.isLt
    refine ⟨?_, Fin.ext ?_⟩
    · rw [vpnOf, Nat.add_comm, Nat.add_mul_div_right _ _ (by decide), Nat.div_eq_of_lt hoff,
        Nat.zero_add]
    · show (off : ℕ) = (v * vmPageSize + off) % vmPageSize
      rw [Nat.add_comm, Nat.add_mul_mod_self_right, Nat.mod_eq_of_lt hoff]
  · rintro ⟨rfl, rfl⟩
    exact addr_eq addr

theorem paged_setByte {f addr : ℕ} {b : UInt8} (hf : f < vmNumFrames) :
    (s.setByte f (offsetOf addr) b).paged =
      s.paged.store f (Function.update (s.paged.ram f) (pageOffset addr) b) := by
  refine PagedStore.ext rfl ?_ ?_ rfl rfl
  · exact frameGetOwner_frameWriteByte _ _
  · exact frameBytes_frameWriteByte hf (pageOffset addr) b

/-! ### Whole calls -/

/-- `ok` holds of index and state before every iteration of the read loop. -/
def readAlong (pid : ℤ) (virtAddr tick : ℕ) (ok : ℕ → VmSys → Bool) : ℕ → ℕ → VmSys → Bool
  | 0, _, _ => true
  | n + 1, i, s =>
    ok i s &&
      match vmReadByte s pid (currAddr virtAddr i) tick with
      | (none, _) => true
      | (some _, s) => readAlong pid virtAddr tick ok n (i + 1) s

/-- `ok` holds of index and state before every iteration of the write loop. -/
def writeAlong (pid : ℤ) (virtAddr tick : ℕ) (ok : ℕ → VmSys → Bool) :
    List UInt8 → ℕ → VmSys → Bool
  | [], _, _ => true
  | b :: bs, i, s =>
    ok i s &&
      match vmWriteByte s pid (currAddr virtAddr i) b tick with
      | (false, _) => true
      | (true, s) => writeAlong pid virtAddr tick ok bs (i + 1) s

theorem readAlong_true (virtAddr n i : ℕ) (s : VmSys) :
    readAlong pid virtAddr tick (fun _ _ => true) n i s = true := by
  induction n generalizing i s with
  | zero => rfl
  | succ n ih =>
    rw [readAlong, Bool.true_and]
    split
    · rfl
    · exact ih _ _

theorem writeAlong_true (virtAddr i : ℕ) (bs : List UInt8) (s : VmSys) :
    writeAlong pid virtAddr tick (fun _ _ => true) bs i s = true := by
  induction bs generalizing i s with
  | nil => rfl
  | cons b bs ih =>
    rw [writeAlong, Bool.true_and]
    split
    · rfl
    · exact ih _ _

/-- What every iteration of the read loop keeps, the loop keeps, and it delivers only
bytes that its iterations may deliver. -/
theorem vmReadLoop_induct {I : VmSys → Prop} {Q : ℕ → UInt8 → Prop} {ok : ℕ → VmSys → Bool}
    {virtAddr : ℕ}
    (hstep : ∀ i s, ok i s = true → I s → I (vmReadByte s pid (currAddr virtAddr i) tick).2 ∧
      ∀ b, (vmReadByte s pid (currAddr virtAddr i) tick).1 = some b → Q i b)
    (n i : ℕ) (s : VmSys) (hok : readAlong pid virtAddr tick ok n i s = true) (hs : I s) :
    I (vmReadLoop pid virtAddr tick n i s).2 ∧
      ∀ bs, (vmReadLoop pid virtAddr tick n i s).1 = some bs →
        bs.length = n ∧ ∀ j b, bs[j]? = some b → Q (i + j) b := by
  induction n generalizing i s with
  | zero =>
    refine ⟨hs, ?_⟩
    rintro bs hbs
    cases hbs
    simp
  | succ n ih =>
    rw [readAlong, Bool.and_eq_true] at hok
    obtain ⟨hok, hrest⟩ := hok
    obtain ⟨hI, hQ⟩ := hstep i s hok hs
    rw [vmReadLoop]
    obtain ⟨r, s₁, hr⟩ : ∃ r s₁, vmReadByte s pid (currAddr virtAddr i) tick = (r, s₁) :=
      ⟨_, _, rfl⟩
    rw [hr] at hI hQ hrest ⊢
    cases r with
    | none => exact ⟨hI, fun bs hbs => by cases hbs⟩
    | some b =>
      dsimp only at hI hQ hrest ⊢
      obtain ⟨hI', hQ'⟩ := ih (i + 1) s₁ hrest hI
      obtain ⟨r', s₂, hr'⟩ : ∃ r' s₂, vmReadLoop pid virtAddr tick n (i + 1) s₁ = (r', s₂) :=
        ⟨_, _, rfl⟩
      rw [hr'] at hI' hQ' ⊢
      cases r' with
      | none => exact ⟨hI', fun bs hbs => by cases hbs⟩
      | some bs' =>
        refine ⟨hI', ?_⟩
        rintro bs hbs
        cases hbs
        obtain ⟨hlen, hget⟩ := hQ' bs' rfl
        refine ⟨by simp [hlen], ?_⟩
        intro j c hc
        cases j with
        | zero =>
          rw [List.getElem?_cons_zero, Option.some_inj] at hc
          exact hQ c (by rw [hc])
        | succ j =>
          rw [List.getElem?_cons_succ] at hc
          have := hget j c hc
          rwa [Nat.add_assoc, Nat.add_comm 1 j] at this

/-- The write loop: `I i` holds before iteration `i`, and `E k` holds at the end if `k`
bytes were stored, be it the end of the list or an iteration that failed. -/
theorem vmWriteLoop_induct {I E : ℕ → VmSys → Prop} {ok : ℕ → VmSys → Bool} {virtAddr : ℕ}
    {src : List UInt8}
    (hstep : ∀ i b s, src[i]? = some b → ok i s = true → I i s →
      if (vmWriteByte s pid (currAddr virtAddr i) b tick).1 then
        I (i + 1) (vmWriteByte s pid (currAddr virtAddr i) b tick).2
      else E i (vmWriteByte s pid (currAddr virtAddr i) b tick).2)
    (hend : ∀ s, I src.length s → E src.length s)
    (bs : List UInt8) (i : ℕ) (s : VmSys) (hbs : bs = src.drop i) (hi : i ≤ src.length)
    (hok : writeAlong pid virtAddr tick ok bs i s = true) (hs : I i s) :
    E (i + (vmWriteLoop pid virtAddr tick bs i s).1) (vmWriteLoop pid virtAddr tick bs i s).2 := by
  induction bs generalizing i s with
  | nil =>
    have hlen : i = src.length := by
      have := List.drop_eq_nil_iff.mp hbs.symm
      omega
    subst hlen
    exact hend s hs
  | cons b bs ih =>
    have hget : src[i]? = some b := by
      have := congrArg (·[0]?) hbs
      simpa using this.symm
    rw [writeAlong, Bool.and_eq_true] at hok
    obtain ⟨hok, hrest⟩ := hok
    have hI := hstep i b s hget hok hs
    rw [vmWriteLoop]
    obtain ⟨stored, s₁, hr⟩ : ∃ stored s₁,
        vmWriteByte s pid (currAddr virtAddr i) b tick = (stored, s₁) := ⟨_, _, rfl⟩
    rw [hr] at hI hrest ⊢
    cases stored with
    | false => exact hI
    | true =>
      dsimp only at hI hrest ⊢
      rw [if_pos rfl] at hI
      have hdrop : bs = src.drop (i + 1) := by
        have := congrArg List.tail hbs
        simpa using this
      have hlt : i < src.length := (List.getElem?_eq_some_iff.mp hget).1
      have := ih (i + 1) s₁ hdrop hlt hrest hI
      rwa [Nat.add_assoc, Nat.add_comm 1] at this

/-- Charging the TLB statistics is invisible. -/
theorem vmCharge_same (before s : VmSys) (pid : ℤ) : SameMemory s (vmCharge before s pid) where
  paged := paged_modifyVm fun _ _ _ => rfl
  tlb := rfl
  perms := perms_modifyVm fun _ _ _ => rfl
  procs := modifyVm_isSome _

/-- `vmReadLoop_induct` for a whole call, whose addresses do not wrap around. -/
theorem vmReadMem_induct {I : VmSys → Prop} {Q : ℕ → UInt8 → Prop} {ok : ℕ → VmSys → Bool}
    {virtAddr len : ℕ} (hsame : ∀ s s', SameMemory s s' → I s → I s')
    (hstep : ∀ i s, ok i s = true → I s → I (vmReadByte s pid (currAddr virtAddr i) tick).2 ∧
      ∀ b, (vmReadByte s pid (currAddr virtAddr i) tick).1 = some b → Q (currAddr virtAddr i) b)
    (hok : virtAddr + len ≤ vmVirtAddrSpaceSize → readAlong pid virtAddr tick ok len 0 s = true)
    (hs : I s) :
    I (vmReadMem s pid virtAddr len tick).2 ∧
      ∀ bs, (vmReadMem s pid virtAddr len tick).1 = some bs →
        bs.length = len ∧ ∀ j b, bs[j]? = some b → Q (virtAddr + j) b := by
  rw [vmReadMem]
  split_ifs with hvm hrange
  · exact ⟨hs, fun bs hbs => by cases hbs⟩
  · exact ⟨hs, fun bs hbs => by cases hbs⟩
  · obtain ⟨hI, hQ⟩ :=
      vmReadLoop_induct (Q := fun i b => Q (currAddr virtAddr i) b) hstep len 0 s
        (hok (by omega)) hs
    obtain ⟨r, s₁, hr⟩ : ∃ r s₁, vmReadLoop pid virtAddr tick len 0 s = (r, s₁) := ⟨_, _, rfl⟩
    rw [hr] at hI hQ ⊢
    cases r with
    | none => exact ⟨hI, fun bs hbs => by cases hbs⟩
    | some bs =>
      refine ⟨hsame _ _ (vmCharge_same s s₁ pid) hI, ?_⟩
      rintro bs' hbs
      cases hbs
      obtain ⟨hlen, hget⟩ := hQ bs rfl
      refine ⟨hlen, ?_⟩
      intro j b hb
      have hj : j < len := by
        rw [← hlen]
        exact (List.getElem?_eq_some_iff.mp hb).1
      have hQj := hget j b hb
      rwa [Nat.zero_add, currAddr, Nat.mod_eq_of_lt (by omega)] at hQj

/-- `vmWriteLoop_induct` for a whole call: `E` holds of the number of bytes stored, and the
call succeeds just when all are. -/
theorem vmWriteMem_induct {I E : ℕ → VmSys → Prop} {ok : ℕ → VmSys → Bool} {virtAddr : ℕ}
    {src : List UInt8} (hsame : ∀ i s s', SameMemory s s' → E i s → E i s')
    (hsound : ∀ i s, I i s → s.paged.Sound)
    (hstep : ∀ i b s, src[i]? = some b → virtAddr + i < vmVirtAddrSpaceSize → (s.vms pid).isSome →
      ok i s = true → I i s →
      if (vmWriteByte s pid (virtAddr + i) b tick).1 then
        I (i + 1) (vmWriteByte s pid (virtAddr + i) b tick).2
      else E i (vmWriteByte s pid (virtAddr + i) b tick).2)
    (hend : ∀ s, I src.length s → E src.length s)
    (hok : virtAddr + src.length ≤ vmVirtAddrSpaceSize →
      writeAlong pid virtAddr tick ok src 0 s = true)
    (hs : I 0 s) (hs' : E 0 s) :
    E (vmWriteMem s pid virtAddr src tick).2.1 (vmWriteMem s pid virtAddr src tick).2.2 := by
  rw [vmWriteMem]
  split_ifs with hvm hrange
  · exact hs'
  · exact hs'
  · have hstep' : ∀ i b s, src[i]? = some b → ok i s = true → I i s ∧ (s.vms pid).isSome →
        if (vmWriteByte s pid (currAddr virtAddr i) b tick).1 then
          I (i + 1) (vmWriteByte s pid (currAddr virtAddr i) b tick).2 ∧
            ((vmWriteByte s pid (currAddr virtAddr i) b tick).2.vms pid).isSome
        else E i (vmWriteByte s pid (currAddr virtAddr i) b tick).2 := by
      rintro i b s hb hok ⟨hI, hsome⟩
      have hi : i < src.length := (List.getElem?_eq_some_iff.mp hb).1
      have haddr : currAddr virtAddr i = virtAddr + i := Nat.mod_eq_of_lt (by omega)
      have hnext := hstep i b s hb (by omega) hsome hok hI
      rw [haddr]
      split_ifs with hstored
      · rw [if_pos hstored] at hnext
        refine ⟨hnext, ?_⟩
        obtain ⟨r, s₁, htr, heq⟩ := vmWriteByte_spec (hsound i s hI) hsome (virtAddr + i) b tick
        have hsome₁ := htr.isSome pid
        rw [hsome] at hsome₁
        rw [heq]
        cases r <;> exact hsome₁
      · rw [if_neg hstored] at hnext
        exact hnext
    have hloop := vmWriteLoop_induct (I := fun i s => I i s ∧ (s.vms pid).isSome) hstep'
      (fun s h => hend s h.1) src 0 s (by simp) (Nat.zero_le _) (hok (by omega))
      ⟨hs, by simpa [Option.isSome_iff_ne_none] using hvm⟩
    obtain ⟨k, s₁, hr⟩ : ∃ k s₁, vmWriteLoop pid virtAddr tick src 0 s = (k, s₁) := ⟨_, _, rfl⟩
    rw [hr] at hloop ⊢
    rw [Nat.zero_add] at hloop
    dsimp only at hloop ⊢
    split_ifs
    · exact hsame _ _ _ (vmCharge_same s s₁ pid) hloop
    · exact hloop

/-- A write call that succeeds stored all its bytes. -/
theorem vmWriteMem_true {virtAddr : ℕ} {src : List UInt8} :
    (vmWriteMem s pid virtAddr src tick).1 = true →
      (vmWriteMem s pid virtAddr src tick).2.1 = src.length := by
  rw [vmWriteMem]
  split_ifs
  · exact fun h => by cases h
  · exact fun h => by cases h
  · dsimp only
    split_ifs with hk
    · exact fun _ => hk
    · exact fun h => by cases h

/-- A write call that fails stored fewer bytes than it was given. -/
theorem vmWriteMem_false {virtAddr : ℕ} {src : List UInt8} :
    (vmWriteMem s pid virtAddr src tick).1 = false →
      (vmWriteMem s pid virtAddr src tick).2.1 = 0 ∨
      (vmWriteMem s pid virtAddr src tick).2.1 ≠ src.length := by
  rw [vmWriteMem]
  split_ifs
  · exact fun _ => Or.inl rfl
  · exact fun _ => Or.inl rfl
  · dsimp only
    split_ifs with hk
    · exact fun h => by cases h
    · exact fun _ => Or.inr hk

end Mosrt
