import SerialUsb.Gasync.Async

/-!
# Failed registrations

When `adapter_open`, `gtimer_start` and `gusb_register` leave the tables as they were. The first
undoes what it did up to the registration of the descriptor but not when that is refused, the
second always, and the third leaves what it registered before the descriptor that is refused.
-/

namespace SerialUsb

inductive Registration where
  | adapterOpen (port : Option Path) (fpRead fpClose : Option Callback) (o : OpenOutcome)
  | gtimerStart (user : ℤ) (fpRead fpClose : Option Callback) (timerfdCreate : Option ℕ)
      (timerfdSettime : Bool)
  | gusbRegister (device user : ℤ) (fpRead fpWrite fpClose : Option Callback)
      (pollfds : List ℤ)

def isSource (fd : ℤ) : Bool := decide (0 ≤ fd ∧ fd < maxSources)

def usbSource (device : ℤ) : Source Callback :=
  ⟨device, some .gusbHandleEvents, some .gusbHandleEvents, some .gusbClose, true, true⟩

def Gpoll.Registered (g : Gpoll Callback) (device fd : ℤ) : Prop :=
  g.sources fd.toNat = usbSource device ∧ fd ≤ g.maxSource

namespace AsyncTables

variable (t : AsyncTables)

def register : Registration → AsyncTables × ℤ
  | .adapterOpen port fpRead fpClose o => t.adapterOpen port fpRead fpClose o
  | .gtimerStart user fpRead fpClose timerfdCreate timerfdSettime =>
      t.gtimerStart user fpRead fpClose timerfdCreate timerfdSettime
  | .gusbRegister device user fpRead fpWrite fpClose pollfds =>
      t.gusbRegister device user fpRead fpWrite fpClose pollfds

/-- The system gives out descriptors that are not open. -/
def Fresh : Registration → Prop
  | .adapterOpen _ _ _ o => ∀ fd, o.fd = some fd → (fd : ℤ) ∉ t.files.opened
  | .gtimerStart _ _ _ timerfdCreate _ =>
      ∀ tfd, timerfdCreate = some tfd → (tfd : ℤ) ∉ t.files.opened
  | .gusbRegister _ _ _ _ _ _ => True

/-- `gserial_open` takes the element `i` of `devices` for the descriptor `fd`. -/
structure Opens (port : Option Path) (o : OpenOutcome) (i fd : ℕ) : Prop where
  descriptor : o.fd = some fd
  path : ∃ path, port = some path ∧ t.devices.hasPath path = false ∧ setParams path o = true
  slot : t.devices.getSlot = some i
  strdup : o.strdup = true

/-- The descriptor that `adapter_open` registers is accepted; `gusb_register` registers anew what
comes before a descriptor that is refused. -/
def Undoes : Registration → Prop
  | .adapterOpen port _ _ o =>
      ∀ i fd, t.Opens port o i fd → t.adapterSlot ≠ none → fd < maxSources
  | .gtimerStart _ _ _ _ _ => True
  | .gusbRegister device _ _ _ _ pollfds =>
      t.checkUsbDevice device = true → (∀ fd ∈ pollfds, isSource fd = true) ∨
        ∀ fd ∈ pollfds.takeWhile isSource, t.files.gpoll.Registered device fd

end AsyncTables

namespace AsyncDevices

variable {ds : AsyncDevices}

theorem getSlot_eq_some {i : ℕ} (h : ds.getSlot = some i) :
    i < asyncMaxDevices ∧ ds.device i = AsyncDevice.free := by
  have hmem := List.mem_of_find?_eq_some h
  have hfd := List.find?_some h
  exact ⟨List.mem_range.1 hmem, ds.free i (by simpa using hfd)⟩

theorem set_free {i : ℕ} {d : AsyncDevice} {h : d.fd = -1 → d = AsyncDevice.free}
    (hfree : ds.device i = AsyncDevice.free) :
    (ds.set i d h).set i AsyncDevice.free (fun _ => rfl) = ds := by
  apply AsyncDevices.ext
  unfold set
  dsimp only
  rw [Function.update_idem, ← hfree, Function.update_eq_self]

theorem addDevice_cases (ds : AsyncDevices) (path : Path) (fd : ℕ) (strdup : Bool) :
    (ds.addDevice path fd strdup = (ds, -1) ∧
        (ds.hasPath path = true ∨ ds.getSlot = none ∨ strdup = false)) ∨
      ∃ i d h, ds.addDevice path fd strdup = (ds.set i d h, (i : ℤ)) ∧ d.fd = fd ∧
        ds.hasPath path = false ∧ ds.getSlot = some i ∧ strdup = true := by
  unfold addDevice
  split
  next hpath => exact Or.inl ⟨rfl, Or.inl hpath⟩
  next hpath =>
    rw [Bool.not_eq_true] at hpath
    cases hslot : ds.getSlot with
    | none => exact Or.inl ⟨rfl, Or.inr (Or.inl rfl)⟩
    | some i =>
        have hfree := (getSlot_eq_some hslot).2
        dsimp only
        split
        next hstrdup =>
          exact Or.inr ⟨i, { ds.device i with path := some path, fd := fd },
            by dsimp only; omega, rfl, rfl, hpath, rfl, hstrdup⟩
        next hstrdup =>
          refine Or.inl ⟨?_, Or.inr (Or.inr (Bool.not_eq_true _ ▸ hstrdup))⟩
          rw [Prod.mk.injEq]
          refine ⟨?_, rfl⟩
          have hsame : ds.device i = { ds.device i with path := none } := by
            rw [hfree]
            rfl
          apply AsyncDevices.ext
          unfold set
          dsimp only
          rw [← hsame, Function.update_eq_self]

end AsyncDevices

namespace AsyncTables

variable {t : AsyncTables}

def withDevice (t : AsyncTables) (i fd : ℕ) (d : AsyncDevice)
    (h : d.fd = -1 → d = AsyncDevice.free) : AsyncTables :=
  { t with
    files := { t.files with opened := insert (fd : ℤ) t.files.opened }
    devices := t.devices.set i d h }

theorem checkDevice_set {ds : AsyncDevices} {i fd : ℕ} {d : AsyncDevice}
    (h : d.fd = -1 → d = AsyncDevice.free) (hi : i < asyncMaxDevices) (hfd : d.fd = fd) :
    (ds.set i d h).checkDevice i = true := by
  unfold AsyncDevices.checkDevice AsyncDevices.set
  rw [decide_eq_true_eq]
  dsimp only
  rw [Int.toNat_natCast, Function.update_self, hfd]
  omega

theorem asyncClose_withDevice {i fd : ℕ} {d : AsyncDevice}
    (h : d.fd = -1 → d = AsyncDevice.free) (hslot : t.devices.getSlot = some i)
    (hfd : d.fd = fd) (hfresh : (fd : ℤ) ∉ t.files.opened) :
    ((t.withDevice i fd d h).asyncClose i).1 = t := by
  obtain ⟨hi, hfree⟩ := AsyncDevices.getSlot_eq_some hslot
  have hcheck : (t.withDevice i fd d h).devices.checkDevice i = true :=
    checkDevice_set h hi hfd
  have hfd' : ((t.withDevice i fd d h).devices.device (i : ℤ).toNat).fd = fd := by
    unfold withDevice AsyncDevices.set
    dsimp only
    rw [Int.toNat_natCast, Function.update_self, hfd]
  unfold asyncClose
  rw [if_pos hcheck, hfd']
  unfold withDevice
  dsimp only
  rw [Int.toNat_natCast, AsyncDevices.set_free hfree, Finset.erase_insert hfresh]

theorem asyncOpenPath_cases {port : Option Path} {o : OpenOutcome}
    (hfresh : ∀ fd, o.fd = some fd → (fd : ℤ) ∉ t.files.opened) :
    (t.asyncOpenPath port o = (t, -1) ∧ ∀ i fd, ¬ t.Opens port o i fd) ∨
      ∃ i fd d h path, t.asyncOpenPath port o = (t.withDevice i fd d h, (i : ℤ)) ∧
        d.fd = fd ∧ o.fd = some fd ∧ port = some path ∧ t.devices.hasPath path = false ∧
        t.devices.getSlot = some i ∧ o.strdup = true := by
  unfold asyncOpenPath
  cases port with
  | none => exact Or.inl ⟨rfl, fun i fd h => by obtain ⟨path, hpath, -⟩ := h.path; cases hpath⟩
  | some path =>
      cases hfd : o.fd with
      | none =>
          exact Or.inl ⟨rfl, fun i fd h => by simpa [hfd] using h.descriptor⟩
      | some fd =>
          dsimp only
          rcases t.devices.addDevice_cases path fd o.strdup with
            ⟨hadd, hrefused⟩ | ⟨i, d, h, hadd, hd, hpath, hslot, hstrdup⟩
          · left
            rw [hadd]
            refine ⟨?_, ?_⟩
            · dsimp only
              rw [if_pos rfl, Finset.erase_insert (hfresh fd hfd)]
            · rintro i fd' ⟨-, ⟨path', hpath', hnot, -⟩, hslot, hstrdup⟩
              rw [Option.some.injEq] at hpath'
              subst hpath'
              rcases hrefused with hrefused | hrefused | hrefused
              · simp [hnot] at hrefused
              · simp [hslot] at hrefused
              · simp [hstrdup] at hrefused
          · right
            refine ⟨i, fd, d, h, path, ?_, hd, rfl, rfl, hpath, hslot, hstrdup⟩
            rw [hadd]
            dsimp only
            rw [if_neg (by omega)]
            rfl

theorem gserialOpen_cases {port : Option Path} {o : OpenOutcome}
    (hfresh : ∀ fd, o.fd = some fd → (fd : ℤ) ∉ t.files.opened) :
    (t.gserialOpen port o = (t, -1) ∧ ∀ i fd, ¬ t.Opens port o i fd) ∨
      ∃ i fd d h, t.gserialOpen port o = (t.withDevice i fd d h, (i : ℤ)) ∧ d.fd = fd ∧
        t.Opens port o i fd := by
  unfold gserialOpen
  rcases asyncOpenPath_cases hfresh with
    ⟨hopen, hnot⟩ | ⟨i, fd, d, h, path, hopen, hd, hfd, hport, hpath, hslot, hstrdup⟩
  · left
    rw [hopen]
    exact ⟨rfl, hnot⟩
  · rw [hopen, hport]
    dsimp only [Option.getD_some]
    rw [if_neg (by omega)]
    by_cases hparams : setParams path o = true
    · rw [if_pos hparams]
      exact Or.inr ⟨i, fd, d, h, rfl, hd, hfd, ⟨path, rfl, hpath, hparams⟩, hslot, hstrdup⟩
    · rw [if_neg hparams, asyncClose_withDevice h hslot hd (hfresh fd hfd)]
      refine Or.inl ⟨rfl, ?_⟩
      rintro i' fd' ⟨-, ⟨path', hpath', -, hparams'⟩, -, -⟩
      rw [Option.some.injEq] at hpath'
      exact hparams (hpath' ▸ hparams')

theorem asyncRegister_withDevice {i fd : ℕ} {d : AsyncDevice}
    (h : d.fd = -1 → d = AsyncDevice.free) (hi : i < asyncMaxDevices) (hfd : d.fd = fd)
    (adapters : ℕ → AdapterSlot) (user : ℤ) (fpRead fpClose : Option Callback) :
    (asyncRegister { t.withDevice i fd d h with adapters := adapters } i user fpRead fpClose
        gpollRegisterFd).2 = if fd < maxSources then 0 else -1 := by
  have hcheck : (t.devices.set i d h).checkDevice i = true := checkDevice_set h hi hfd
  unfold asyncRegister withDevice
  dsimp only
  rw [dif_pos hcheck]
  dsimp only
  rw [gpollRegisterFd_ret]
  have hfd' : ((t.devices.set i d h).device (i : ℤ).toNat).fd = fd := by
    unfold AsyncDevices.set
    dsimp only
    rw [Int.toNat_natCast, Function.update_self, hfd]
  have hbound : (fd : ℤ) < 1024 ↔ fd < 1024 := by omega
  rw [hfd']
  unfold registerAccepts
  simp [hbound]

theorem asyncRegister_opened (t : AsyncTables) (device user : ℤ)
    (fpRead fpClose : Option Callback) (fpRegister : RegisterFd) :
    (t.asyncRegister device user fpRead fpClose fpRegister).1.files.opened =
      t.files.opened := by
  unfold asyncRegister
  split <;> rfl

/-- `adapter_open` is undone unless the descriptor is refused behind everything else. -/
theorem adapterOpen_atomic_iff {port : Option Path} {fpRead fpClose : Option Callback}
    {o : OpenOutcome} (hfresh : ∀ fd, o.fd = some fd → (fd : ℤ) ∉ t.files.opened) :
    ((t.adapterOpen port fpRead fpClose o).2 = -1 →
        (t.adapterOpen port fpRead fpClose o).1 = t) ↔
      ∀ i fd, t.Opens port o i fd → t.adapterSlot ≠ none → fd < maxSources := by
  unfold adapterOpen
  rcases gserialOpen_cases hfresh with ⟨hopen, hnot⟩ | ⟨i, fd, d, h, hopen, hd, hopens⟩
  · rw [hopen]
    exact ⟨fun _ i fd hopens => absurd hopens (hnot i fd), fun _ _ => rfl⟩
  · have hunique : ∀ i' fd', t.Opens port o i' fd' → fd' = fd := by
      intro i' fd' hopens'
      exact Option.some.inj (hopens'.descriptor.symm.trans hopens.descriptor)
    rw [hopen]
    dsimp only
    rw [if_neg (by omega)]
    have hslots : (t.withDevice i fd d h).adapterSlot = t.adapterSlot := rfl
    rw [hslots]
    cases hslot : t.adapterSlot with
    | none =>
        dsimp only
        rw [asyncClose_withDevice h hopens.slot hd (hfresh fd hopens.descriptor)]
        exact ⟨fun _ _ _ _ hsome => absurd rfl hsome, fun _ _ => rfl⟩
    | some j =>
        have hi := (AsyncDevices.getSlot_eq_some hopens.slot).1
        dsimp only
        rw [asyncRegister_withDevice h hi hd]
        by_cases hbound : fd < maxSources
        · rw [if_pos hbound, if_neg (by decide)]
          refine ⟨fun _ i' fd' hopens' _ => hunique i' fd' hopens' ▸ hbound, fun _ hret => ?_⟩
          dsimp only at hret
          omega
        · rw [if_neg hbound, if_pos (by decide)]
          refine ⟨fun hundone => ?_, fun hcondition => ?_⟩
          · -- the descriptor stays open
            have hkept := congrArg (fun t => t.files.opened) (hundone rfl)
            dsimp only at hkept
            rw [asyncRegister_opened] at hkept
            have hopened : (fd : ℤ) ∈ t.files.opened := hkept ▸ Finset.mem_insert_self _ _
            exact absurd hopened (hfresh fd hopens.descriptor)
          · exact absurd (hcondition i fd hopens (Option.some_ne_none _)) hbound

theorem gtimerStart_atomic {user : ℤ} {fpRead fpClose : Option Callback}
    {timerfdCreate : Option ℕ} {timerfdSettime : Bool}
    (hfresh : ∀ tfd, timerfdCreate = some tfd → (tfd : ℤ) ∉ t.files.opened)
    (hret : (t.gtimerStart user fpRead fpClose timerfdCreate timerfdSettime).2 = -1) :
    (t.gtimerStart user fpRead fpClose timerfdCreate timerfdSettime).1 = t := by
  unfold gtimerStart Gtimer.gtimerStart at hret ⊢
  cases hslot : Gtimer.getSlot ⟨t.timers, t.files⟩ with
  | none => rfl
  | some slot =>
      cases timerfdCreate with
      | none => rfl
      | some tfd =>
          rw [hslot] at hret
          dsimp only at hret ⊢
          have herase := Finset.erase_insert (hfresh tfd rfl)
          cases timerfdSettime with
          | false => rw [if_neg (by decide), herase]
          | true =>
              rw [if_pos rfl] at hret ⊢
              by_cases haccepts : registerAccepts (tfd : ℤ) (some Callback.gtimerRead) none
                  (some Callback.gtimerClose) = true
              · rw [gpollRegisterFd_of_accepts _ haccepts, if_neg (by simp)] at hret
                dsimp only at hret
                omega
              · rw [gpollRegisterFd_of_refused _ (Bool.eq_false_iff.2 haccepts),
                  if_pos (by simp), herase]

theorem registerAccepts_usb (fd : ℤ) :
    registerAccepts fd (some Callback.gusbHandleEvents) (some Callback.gusbHandleEvents)
      (some Callback.gusbClose) = isSource fd := rfl

def registerUsb (g : Gpoll Callback) (device fd : ℤ) : Gpoll Callback :=
  ⟨Function.update g.sources fd.toNat (usbSource device),
    if (g.maxSource : ℤ) < fd then fd.toNat else g.maxSource⟩

theorem registerPollfds_cons (g : Gpoll Callback) (device fd : ℤ) (fds : List ℤ) :
    registerPollfds g device (fd :: fds) =
      if isSource fd then registerPollfds (registerUsb g device fd) device fds else (g, -1) := by
  rw [registerPollfds]
  by_cases h : isSource fd = true
  · rw [if_pos h, gpollRegisterFd_of_accepts g (registerAccepts_usb fd ▸ h)]
    simp [registerUsb, Source.register, usbSource]
  · rw [if_neg h, gpollRegisterFd_of_refused g
      (registerAccepts_usb fd ▸ Bool.eq_false_iff.2 h)]
    rfl

theorem registered_registerUsb {g : Gpoll Callback} {device fd : ℤ} (h : isSource fd = true) :
    (registerUsb g device fd).Registered device fd := by
  have hbounds := of_decide_eq_true h
  unfold registerUsb Gpoll.Registered
  dsimp only
  refine ⟨Function.update_self .., ?_⟩
  split <;> omega

theorem registered_registerUsb_of_registered {g : Gpoll Callback} {device fd : ℤ}
    (h : g.Registered device fd) (other : ℤ) :
    (registerUsb g device other).Registered device fd := by
  obtain ⟨hsource, hmax⟩ := h
  unfold registerUsb Gpoll.Registered
  dsimp only
  constructor
  · by_cases heq : fd.toNat = other.toNat
    · rw [heq, Function.update_self]
    · rw [Function.update_of_ne heq, hsource]
  · split <;> omega

theorem registerUsb_of_registered {g : Gpoll Callback} {device fd : ℤ}
    (h : g.Registered device fd) : registerUsb g device fd = g := by
  obtain ⟨hsource, hmax⟩ := h
  unfold registerUsb
  rw [← hsource, Function.update_eq_self, if_neg (not_lt.2 hmax)]

theorem registerPollfds_ret (g : Gpoll Callback) (device : ℤ) (fds : List ℤ) :
    (registerPollfds g device fds).2 = if ∀ fd ∈ fds, isSource fd = true then 0 else -1 := by
  induction fds generalizing g with
  | nil => rfl
  | cons fd fds ih =>
      rw [registerPollfds_cons]
      by_cases h : isSource fd = true
      · rw [if_pos h, ih]
        simp [h]
      · rw [if_neg h, if_neg]
        exact fun hall => h (hall fd List.mem_cons_self)

theorem registered_registerPollfds_of_registered {g : Gpoll Callback} {device fd : ℤ}
    (h : g.Registered device fd) (fds : List ℤ) :
    (registerPollfds g device fds).1.Registered device fd := by
  induction fds generalizing g with
  | nil => exact h
  | cons other fds ih =>
      rw [registerPollfds_cons]
      split
      · exact ih (registered_registerUsb_of_registered h other)
      · exact h

theorem registered_registerPollfds (g : Gpoll Callback) (device : ℤ) (fds : List ℤ) :
    ∀ fd ∈ fds.takeWhile isSource, (registerPollfds g device fds).1.Registered device fd := by
  induction fds generalizing g with
  | nil => simp
  | cons other fds ih =>
      intro fd hfd
      rw [registerPollfds_cons]
      by_cases h : isSource other = true
      · rw [List.takeWhile_cons_of_pos h, List.mem_cons] at hfd
        rw [if_pos h]
        rcases hfd with rfl | hfd
        · exact registered_registerPollfds_of_registered (registered_registerUsb h) fds
        · exact ih _ fd hfd
      · rw [List.takeWhile_cons_of_neg h] at hfd
        cases hfd

theorem registerPollfds_eq_self_iff (g : Gpoll Callback) (device : ℤ) (fds : List ℤ) :
    (registerPollfds g device fds).1 = g ↔
      ∀ fd ∈ fds.takeWhile isSource, g.Registered device fd := by
  constructor
  · intro h
    have hall := registered_registerPollfds g device fds
    rwa [h] at hall
  · intro h
    induction fds with
    | nil => rfl
    | cons fd fds ih =>
        rw [registerPollfds_cons]
        by_cases hfd : isSource fd = true
        · rw [List.takeWhile_cons_of_pos hfd, List.forall_mem_cons] at h
          rw [if_pos hfd, registerUsb_of_registered h.1]
          exact ih h.2
        · rw [if_neg hfd]

/-- `gusb_register` is undone unless it registers something before a descriptor that is
refused. -/
theorem gusbRegister_atomic_iff {device user : ℤ} {fpRead fpWrite fpClose : Option Callback}
    {pollfds : List ℤ} :
    ((t.gusbRegister device user fpRead fpWrite fpClose pollfds).2 = -1 →
        (t.gusbRegister device user fpRead fpWrite fpClose pollfds).1 = t) ↔
      (t.checkUsbDevice device = true → (∀ fd ∈ pollfds, isSource fd = true) ∨
        ∀ fd ∈ pollfds.takeWhile isSource, t.files.gpoll.Registered device fd) := by
  unfold gusbRegister
  by_cases hcheck : t.checkUsbDevice device = true
  · rw [if_pos hcheck]
    dsimp only
    rw [registerPollfds_ret]
    by_cases hall : ∀ fd ∈ pollfds, isSource fd = true
    · rw [if_pos hall, if_pos (by decide)]
      exact ⟨fun _ _ => Or.inl hall, fun _ hret => absurd hret (by simp)⟩
    · rw [if_neg hall, if_neg (by decide)]
      dsimp only
      constructor
      · intro h _
        right
        rw [← registerPollfds_eq_self_iff]
        exact congrArg (fun t => t.files.gpoll) (h rfl)
      · intro h _
        rw [(registerPollfds_eq_self_iff _ _ _).2 ((h hcheck).resolve_left hall)]
  · rw [if_neg hcheck]
    exact ⟨fun _ h => absurd h hcheck, fun _ _ => rfl⟩

/-- A call that returns -1 leaves all tables as they were, if and only if it undoes what it did
before. -/
theorem register_atomic_iff (t : AsyncTables) (call : Registration) (hfresh : t.Fresh call) :
    ((t.register call).2 = -1 → (t.register call).1 = t) ↔ t.Undoes call := by
  cases call with
  | adapterOpen port fpRead fpClose o => exact adapterOpen_atomic_iff hfresh
  | gtimerStart user fpRead fpClose timerfdCreate timerfdSettime =>
      exact ⟨fun _ => trivial, fun _ => gtimerStart_atomic hfresh⟩
  | gusbRegister device user fpRead fpWrite fpClose pollfds => exact gusbRegister_atomic_iff

def openSerial (fd : ℕ) : Registration :=
  .adapterOpen (some ['t', 't', 'y', 'S', '0']) (some (.program 0)) (some (.program 1))
    ⟨some fd, true, true⟩

def standard : AsyncTables := AsyncTables.start {0, 1, 2}

theorem register_atomic_iff_openSerial :
    ((standard.register (openSerial 3)).2 = -1 →
        (standard.register (openSerial 3)).1 = standard) ↔ standard.Undoes (openSerial 3) := by
  apply register_atomic_iff
  intro fd hfd
  rw [Option.some.injEq] at hfd
  subst hfd
  decide

/-- A serial port with the descriptor 1024 cannot be registered: the element of `adapters` stays
claimed, and the descriptor open. -/
theorem not_register_atomic_openSerial :
    (standard.register (openSerial 1024)).2 = -1 ∧
      ((standard.register (openSerial 1024)).1.adapters 0).serial = 0 ∧
      (1024 : ℤ) ∈ (standard.register (openSerial 1024)).1.files.opened ∧
      ¬ ((standard.register (openSerial 1024)).2 = -1 →
        (standard.register (openSerial 1024)).1 = standard) := by
  have hret : (standard.register (openSerial 1024)).2 = -1 := by decide +kernel
  have hserial : ((standard.register (openSerial 1024)).1.adapters 0).serial = 0 := by
    decide +kernel
  refine ⟨hret, hserial, by decide +kernel, fun h => ?_⟩
  rw [h hret] at hserial
  exact absurd hserial (by decide)

end AsyncTables

end SerialUsb
