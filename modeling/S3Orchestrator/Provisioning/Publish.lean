import S3Orchestrator.Lib.Run
import S3Orchestrator.Provisioning.View

/-!
# Publishing the registry

A provisioning call checks the merged view, writes one row, and rebuilds the registry of its
instance before it returns. A reload and an announcement from another instance rebuild it too. A
rebuild reads the configuration and the four tables one after another and then swaps the registry,
with nothing that orders two rebuilds.

* **`revocation_final`**.
-/

namespace S3Orchestrator.Provisioning

open RowStore List

/-! ## The calls -/

/-- A provisioning call with what it writes. -/
inductive Change
  | createBucket (name : String)
  | updateBucket (name : String)
  | deleteBucket (name : String)
  | createUser (u : StoredUser)
  | renameUser (id name : String)
  | deleteUser (id : String)
  | createCredential (c : StoredCredential)
  | deleteCredential (accessKeyID : String)
  | createGrant (g : Grant)
  | setGrant (g : Grant)
  | deleteGrant (userID : String) (r : Resource)
  deriving DecidableEq, Repr

inductive ProvisioningError
  | nameRequired
  | userRequired
  | keypairIncomplete
  | noPermissions
  | configDeclared (what : String)
  | bucketExists (name : String)
  | bucketNotFound (name : String)
  | backendNotFound (name : String)
  | userNotFound (id : String)
  | userInUse (id : String)
  | credentialExists (accessKeyID : String)
  | credentialNotFound (accessKeyID : String)
  | invalidResource (r : Resource)

namespace View

variable (v : View)

def findBucket (name : String) : Option Bucket := v.buckets.find? (·.name == name)

def findUser (id : String) : Option User := v.users.find? (·.id == id)

def findCredential (accessKeyID : String) : Option Credential :=
  v.credentials.find? (·.accessKeyID == accessKeyID)

def hasStoredBucket (name : String) : Bool :=
  (v.findBucket name).any (·.source == .store) || v.shadowed.any (·.name == name)

def requireStoredBucket (name : String) : Except ProvisioningError Unit :=
  if v.hasStoredBucket name then .ok ()
  else if (v.findBucket name).isSome then .error (.configDeclared name)
  else .error (.bucketNotFound name)

def storedUser (id : String) : Except ProvisioningError Unit :=
  match v.findUser id with
  | none => .error (.userNotFound id)
  | some u => if u.source = .config then .error (.configDeclared id) else .ok ()

/-- The user has a bucket in its list. -/
def reachesBucket (id : String) : Bool :=
  (v.findUser id).any fun u => v.buckets.any fun b => (u.grants b.name).isSome

def checkResource (cfg : Config) (r : Resource) : Except ProvisioningError Unit :=
  match r.kind with
  | .orchestrator => if r.name ≠ "" then .error (.invalidResource r) else .ok ()
  | .bucket =>
    if r.isWildcard || (v.findBucket r.name).isSome then .ok () else .error (.bucketNotFound r.name)
  | .backend =>
    if r.isWildcard || r.name ∈ cfg.backends then .ok () else .error (.backendNotFound r.name)

def checkGrant (cfg : Config) (g : Grant) : Except ProvisioningError Unit := do
  v.storedUser g.userID
  v.checkResource cfg g.resource
  if g.permissions = 0#64 then .error .noPermissions
  else if g.permissions &&& ~~~validOn g.resource.kind ≠ 0#64 then
    .error (.invalidResource g.resource)
  else .ok ()

end View

def createdGrant (g : Grant) : Grant :=
  if g.permissions = 0#64 then { g with permissions := validOn g.resource.kind } else g

/-- What a call checks in the view it has read. The check of a bucket's settings and objects only
refuses calls, and is left to `Event.fail`. -/
def precheck (cfg : Config) (v : View) : Change → Except ProvisioningError Unit
  | .createBucket name => if v.hasStoredBucket name then .error (.bucketExists name) else .ok ()
  | .updateBucket name => v.requireStoredBucket name
  | .deleteBucket name => v.requireStoredBucket name
  | .createUser u => if u.name = "" then .error .nameRequired else .ok ()
  | .renameUser id name =>
    if id = "" then .error .userRequired
    else if name = "" then .error .nameRequired
    else v.storedUser id
  | .deleteUser id => do
    v.storedUser id
    if v.reachesBucket id || v.credentials.any (·.userID == id) then .error (.userInUse id)
    else .ok ()
  | .createCredential c => do
    if c.userID = "" then .error .userRequired
    else if c.accessKeyID = "" ∨ c.secret = "" then .error .keypairIncomplete
    else .ok ()
    v.storedUser c.userID
    if (v.findCredential c.accessKeyID).isSome then .error (.credentialExists c.accessKeyID)
    else .ok ()
  | .deleteCredential accessKeyID =>
    match v.findCredential accessKeyID with
    | none => .error (.credentialNotFound accessKeyID)
    | some c => if c.source = .config then .error (.configDeclared accessKeyID) else .ok ()
  | .createGrant g => v.checkGrant cfg (createdGrant g)
  | .setGrant g => v.checkGrant cfg g
  | .deleteGrant userID _ => v.storedUser userID

def Snapshot.hasUser (s : Snapshot) (id : String) : Bool := s.users.rows.any (·.id == id)

/-- The statement of a call. `none` is a row the schema refuses: a second one with its key, or one
of no user. -/
def Change.apply (s : Snapshot) : Change → Option Snapshot
  | .createBucket name => (s.buckets.insert? name).map fun t => { s with buckets := t }
  | .updateBucket _ => some s
  | .deleteBucket name => some { s with buckets := s.buckets.deleteWhere (· == name) }
  | .createUser u => (s.users.insert? u).map fun t => { s with users := t }
  | .renameUser id name =>
    if s.hasUser id then
      ((s.users.deleteWhere (·.id == id)).insert? ⟨id, name⟩).map fun t => { s with users := t }
    else some s
  | .deleteUser id =>
    if s.credentials.rows.any (·.userID == id) || s.grants.rows.any (·.userID == id) then none
    else some { s with users := s.users.deleteWhere (·.id == id) }
  | .createCredential c =>
    if s.hasUser c.userID then
      (s.credentials.insert? c).map fun t => { s with credentials := t }
    else none
  | .deleteCredential accessKeyID =>
    some { s with credentials := s.credentials.deleteWhere (·.accessKeyID == accessKeyID) }
  | .createGrant g =>
    if s.hasUser g.userID then
      (s.grants.insert? (createdGrant g)).map fun t => { s with grants := t }
    else none
  | .setGrant g => if s.hasUser g.userID then some { s with grants := s.grants.upsert g } else none
  | .deleteGrant userID r =>
    some { s with grants := s.grants.deleteWhere fun g => g.userID == userID && g.resource == r }

/-- The access key a call deletes. -/
def Change.revokes : Change → Option String
  | .deleteCredential accessKeyID => some accessKeyID
  | _ => none

def Change.setsGrant : Change → Bool
  | .setGrant _ => true
  | .deleteGrant _ _ => true
  | _ => false

/-! ## The instance -/

/-- What a rebuild reads: the configuration in force and the stored tables. -/
structure World where
  config : Config
  tables : Snapshot

structure Reads where
  config : Nat
  buckets : Nat
  users : Nat
  credentials : Nat
  grants : Nat

namespace Reads

def ofList : List Nat → Option Reads
  | [config, buckets, users, credentials, grants] =>
    some ⟨config, buckets, users, credentials, grants⟩
  | _ => none

def Since (r : Reads) (m : Nat) : Prop :=
  m ≤ r.config ∧ m ≤ r.buckets ∧ m ≤ r.users ∧ m ≤ r.credentials ∧ m ≤ r.grants

def Upto (r : Reads) (m : Nat) : Prop :=
  r.config ≤ m ∧ r.buckets ≤ m ∧ r.users ≤ m ∧ r.credentials ≤ m ∧ r.grants ≤ m

def NotAfter (r r' : Reads) : Prop :=
  r.config ≤ r'.config ∧ r.buckets ≤ r'.buckets ∧ r.users ≤ r'.users ∧
    r.credentials ≤ r'.credentials ∧ r.grants ≤ r'.grants
  deriving Decidable

def world (r : Reads) (history : Nat → World) : World where
  config := (history r.config).config
  tables :=
    { buckets := (history r.buckets).tables.buckets
      users := (history r.users).tables.users
      credentials := (history r.credentials).tables.credentials
      grants := (history r.grants).tables.grants }

end Reads

inductive Stage
  | checking
  | rebuilding
  | published
  | returned
  | failed
  deriving DecidableEq, Repr

/-- A provisioning call, or with no change a reload or an announcement. `wrote` is the moment of its
write. -/
structure Call where
  change : Option Change
  wrote : Nat := 0
  reads : List Nat := []
  stage : Stage
  deriving DecidableEq, Repr

/-- One instance. `history m` is the configuration and the store at moment `m`, and `clock` the
present moment. -/
structure Instance where
  clock : Nat
  history : Nat → World
  calls : List Call := []
  registry : BucketRegistry
  readAt : Reads

def Instance.start (w : World) (registry : BucketRegistry) : Instance where
  clock := 0
  history := fun _ => w
  registry := registry
  readAt := ⟨0, 0, 0, 0, 0⟩

inductive Event
  /-- A provisioning call arrives. -/
  | begin (c : Change)
  /-- `Reload`: a new configuration is stored, and then applied. -/
  | reload (cfg : Config)
  /-- Another instance announces a change. -/
  | announced
  /-- Another instance changes the store. -/
  | elsewhere (c : Change)
  /-- The next of the five reads of a check or a rebuild. -/
  | read (i : Nat)
  | write (i : Nat)
  /-- `Install`. -/
  | install (i : Nat)
  /-- The call returns success. -/
  | finish (i : Nat)
  /-- A step of the call fails. -/
  | fail (i : Nat)

def World.registry (w : World) : Except DuplicateCredential BucketRegistry :=
  newBucketRegistry (merge w.config w.tables)

def Call.read (c : Call) (now : Nat) : Call :=
  if (c.stage = .checking ∨ c.stage = .rebuilding) ∧ c.reads.length < 5 then
    { c with reads := c.reads ++ [now] }
  else c

namespace Instance

variable (s : Instance)

def world : World := s.history s.clock

def advance (w : World) : Instance :=
  { s with clock := s.clock + 1, history := Function.update s.history (s.clock + 1) w }

def setCall (i : Nat) (c : Call) : Instance := { s with calls := s.calls.set i c }

def commit (i : Nat) (c : Call) (change : Change) (r : Reads) : Instance :=
  match precheck (r.world s.history).config
      (merge (r.world s.history).config (r.world s.history).tables) change with
  | .error _ => s.setCall i { c with stage := .failed }
  | .ok _ =>
    match change.apply s.world.tables with
    | none => s.setCall i { c with stage := .failed }
    | some tables =>
      (s.advance { s.world with tables := tables }).setCall i
        { c with wrote := s.clock + 1, reads := [], stage := .rebuilding }

def swap (i : Nat) (c : Call) (r : Reads) : Instance :=
  match (r.world s.history).registry with
  | .error _ => s.setCall i { c with stage := .failed }
  | .ok registry =>
    { s.setCall i { c with stage := .published } with registry := registry, readAt := r }

def step (s : Instance) : Event → Instance
  | .begin c => { s with calls := s.calls ++ [{ change := some c, stage := .checking }] }
  | .reload cfg =>
    let s' := s.advance { s.world with config := cfg }
    { s' with
      calls := s'.calls ++ [{ change := none, reads := [s'.clock], stage := .rebuilding }] }
  | .announced => { s with calls := s.calls ++ [{ change := none, stage := .rebuilding }] }
  | .elsewhere c =>
    match c.apply s.world.tables with
    | none => s
    | some tables => s.advance { s.world with tables := tables }
  | .read i =>
    match s.calls[i]? with
    | none => s
    | some c => s.setCall i (c.read s.clock)
  | .write i =>
    match s.calls[i]? with
    | none => s
    | some c =>
      match c.stage, c.change, Reads.ofList c.reads with
      | .checking, some change, some r => s.commit i c change r
      | _, _, _ => s
  | .install i =>
    match s.calls[i]? with
    | none => s
    | some c =>
      match c.stage, Reads.ofList c.reads with
      | .rebuilding, some r => s.swap i c r
      | _, _ => s
  | .finish i =>
    match s.calls[i]? with
    | none => s
    | some c => if c.stage = .published then s.setCall i { c with stage := .returned } else s
  | .fail i =>
    match s.calls[i]? with
    | none => s
    | some c => if c.stage = .returned then s else s.setCall i { c with stage := .failed }

/-! ## What a run keeps -/

/-- A rebuild that is swapped in has made none of its five reads before the same read of the
registry in force; and a credential is not declared by a reload while its deletion is under way,
after the check and before the write. -/
def InOrder (s : Instance) : Event → Prop
  | .install i => ∀ c ∈ s.calls[i]?, c.stage = .rebuilding →
      ∀ r ∈ Reads.ofList c.reads, s.readAt.NotAfter r
  | .write i => ∀ c ∈ s.calls[i]?, ∀ accessKey ∈ c.change.bind Change.revokes,
      ∀ r ∈ Reads.ofList c.reads, s.world.config.declaresKey accessKey = true →
        (s.history r.config).config.declaresKey accessKey = true
  | _ => True

instance decidableInOrder (s : Instance) (e : Event) : Decidable (s.InOrder e) := by
  cases e <;> dsimp only [InOrder] <;> infer_instance

/-- After the write the access key is stored again, or declared by a configuration. -/
def CreatedAgain (c : Call) (accessKey : String) : Prop :=
  ∃ m, c.wrote < m ∧ m ≤ s.clock ∧
    ((∃ row ∈ (s.history m).tables.credentials.rows, row.accessKeyID = accessKey) ∨
      (s.history m).config.declaresKey accessKey = true)

def CarriedSince (c : Call) (userID : String) (a : Access) : Prop :=
  ∃ r : Reads, r.Since c.wrote ∧ r.Upto s.clock ∧
    storedAllow (declaredNames (r.world s.history).config (r.world s.history).tables)
      (r.world s.history).tables.listGrants userID a = true

/-- What a returned call has revoked stays revoked: no request is authenticated with an access key
that was deleted, unless it was created again, and no stored user is allowed what the grants have
not carried since. -/
def RevocationFinal : Prop :=
  ∀ c ∈ s.calls, c.stage = .returned →
    (∀ accessKey, c.change = some (.deleteCredential accessKey) →
      ∀ check, (s.registry.verify accessKey check).isSome → s.CreatedAgain c accessKey) ∧
    ∀ change, c.change = some change → change.setsGrant = true →
      ∀ accessKey check u, s.registry.verify accessKey check = some u → u.source = .store →
        ∀ a, u.allowed a = true → s.CarriedSince c u.id a

/-- A credential that a call has deleted was neither stored nor declared at its write. -/
def Wrote (c : Call) : Prop :=
  c.wrote ≤ s.clock ∧ ∀ accessKey, c.change = some (.deleteCredential accessKey) →
    (∀ row ∈ (s.history c.wrote).tables.credentials.rows, row.accessKeyID ≠ accessKey) ∧
      (s.history c.wrote).config.declaresKey accessKey = false

/-- The reads of a rebuild come after the write of its call, and so do those of the registry once it
is swapped in. -/
def CallSound (c : Call) : Prop :=
  (∀ m ∈ c.reads, m ≤ s.clock) ∧
    match c.stage with
    | .checking => True
    | .rebuilding => s.Wrote c ∧ ∀ m ∈ c.reads, c.wrote ≤ m
    | .published => s.Wrote c ∧ s.readAt.Since c.wrote
    | .returned => s.Wrote c ∧ s.readAt.Since c.wrote
    | .failed => True

structure Sound : Prop where
  built : (s.readAt.world s.history).registry = .ok s.registry
  past : s.readAt.Upto s.clock
  calls : ∀ c ∈ s.calls, s.CallSound c

end Instance

section Reads

variable {l : List Nat} {r r' : Reads} {m : Nat}

theorem Reads.ofList_eq_some (h : Reads.ofList l = some r) :
    l = [r.config, r.buckets, r.users, r.credentials, r.grants] := by
  unfold Reads.ofList at h
  split at h
  · cases h
    rfl
  · cases h

theorem Reads.since_of_ofList (h : Reads.ofList l = some r) (hl : ∀ x ∈ l, m ≤ x) : r.Since m := by
  rw [Reads.ofList_eq_some h] at hl
  simpa [Reads.Since] using hl

theorem Reads.upto_of_ofList (h : Reads.ofList l = some r) (hl : ∀ x ∈ l, x ≤ m) : r.Upto m := by
  rw [Reads.ofList_eq_some h] at hl
  simpa [Reads.Upto] using hl

theorem Reads.Since.trans (h : r.Since m) (hr : r.NotAfter r') : r'.Since m := by
  unfold Reads.Since Reads.NotAfter at *
  omega

theorem Reads.Upto.succ (h : r.Upto m) : r.Upto (m + 1) := by
  unfold Reads.Upto at *
  omega

end Reads

/-! ## What a check and a write give -/

theorem undeclared_of_precheck {cfg : Config} {t : Snapshot} {accessKey : String}
    (h : precheck cfg (merge cfg t) (.deleteCredential accessKey) = .ok ()) :
    cfg.declaresKey accessKey = false := by
  by_contra hdecl
  rw [Bool.not_eq_false] at hdecl
  have hconfigured : ∃ c ∈ (mergeRootUser cfg (declaredNames cfg t)).2 ++
      (mergeConfigUsers cfg.buckets).2, c.accessKeyID = accessKey := by
    rcases Bool.or_eq_true_iff.mp hdecl with hroot | hbucket
    · obtain ⟨hcomplete, hkey⟩ := Bool.and_eq_true_iff.mp hroot
      refine ⟨⟨cfg.root.accessKeyID, rootUserID, cfg.root.secretAccessKey, .config⟩, ?_, ?_⟩
      · rw [mergeRootUser, if_pos hcomplete]
        simp
      · simpa using hkey
    · obtain ⟨b, hb, hany⟩ := any_eq_true.mp hbucket
      obtain ⟨k, hk, hkey⟩ := any_eq_true.mp hany
      refine ⟨⟨k.accessKeyID, configUserID k.accessKeyID, k.secretAccessKey, .config⟩, ?_, ?_⟩
      · refine mem_append_right _ (mem_flatMap.mpr ⟨b, hb, ?_⟩)
        exact mem_map.mpr ⟨k, hk, rfl⟩
      · simpa using hkey
  have hsource : ∀ c ∈ (mergeRootUser cfg (declaredNames cfg t)).2 ++
      (mergeConfigUsers cfg.buckets).2, c.source = .config := by
    intro c hc
    rcases mem_append.mp hc with hc | hc
    · unfold mergeRootUser at hc
      split_ifs at hc
      · obtain rfl : c = _ := by simpa using hc
        rfl
      · cases hc
    · obtain ⟨b, -, hc⟩ := mem_flatMap.mp hc
      obtain ⟨k, -, rfl⟩ := mem_map.mp hc
      rfl
  obtain ⟨c, hc, hkey⟩ := hconfigured
  obtain ⟨c', hfind⟩ := Option.isSome_iff_exists.mp
    (find?_isSome (p := fun c : Credential => c.accessKeyID == accessKey) |>.mpr
      ⟨c, hc, by simpa using hkey⟩)
  have hview : (merge cfg t).findCredential accessKey = some c' := by
    rw [View.findCredential, credentials_merge, find?_append, hfind, Option.some_or]
  rw [precheck, hview] at h
  simp [hsource c' (mem_of_find?_eq_some hfind)] at h

theorem not_stored_of_apply {t t' : Snapshot} {accessKey : String}
    (h : (Change.deleteCredential accessKey).apply t = some t') :
    ∀ row ∈ t'.credentials.rows, row.accessKeyID ≠ accessKey := by
  cases h
  simp

/-! ## Steps -/

namespace Instance

variable {s : Instance}

theorem history_advance (w : World) {m : Nat} (hm : m ≤ s.clock) :
    (s.advance w).history m = s.history m :=
  Function.update_of_ne (by omega) _ _

variable {c : Call} {r : Reads}

theorem world_advance (w : World) (hr : r.Upto s.clock) :
    r.world (s.advance w).history = r.world s.history := by
  obtain ⟨hc, hb, hu, hk, hg⟩ := hr
  simp only [Reads.world, history_advance w hc, history_advance w hb, history_advance w hu,
    history_advance w hk, history_advance w hg]

theorem Wrote.advance (h : s.Wrote c) (w : World) : (s.advance w).Wrote c := by
  refine ⟨h.1.trans (Nat.le_succ _), ?_⟩
  rw [history_advance w h.1]
  exact h.2

theorem CallSound.advance (h : s.CallSound c) (w : World) : (s.advance w).CallSound c := by
  refine ⟨fun m hm => (h.1 m hm).trans (Nat.le_succ _), ?_⟩
  have hstage := h.2
  cases hc : c.stage <;> rw [hc] at hstage <;> dsimp only at hstage ⊢
  · exact ⟨hstage.1.advance w, hstage.2⟩
  · exact ⟨hstage.1.advance w, hstage.2⟩
  · exact ⟨hstage.1.advance w, hstage.2⟩

theorem Sound.advance (h : s.Sound) (w : World) : (s.advance w).Sound where
  built := by
    change (s.readAt.world (s.advance w).history).registry = .ok s.registry
    rw [world_advance w h.past]
    exact h.built
  past := h.past.succ
  calls := fun c hc => (h.calls c hc).advance w

theorem Sound.setCall (h : s.Sound) (hc : s.CallSound c) (i : Nat) : (s.setCall i c).Sound where
  built := h.built
  past := h.past
  calls := fun c' hc' => (List.mem_or_eq_of_mem_set hc').elim (h.calls c') fun heq => heq ▸ hc

theorem Sound.addCall (h : s.Sound) (hc : s.CallSound c) :
    ({ s with calls := s.calls ++ [c] } : Instance).Sound where
  built := h.built
  past := h.past
  calls := fun c' hc' => (List.mem_append.mp hc').elim (h.calls c') fun hlast =>
    List.mem_singleton.mp hlast ▸ hc

theorem CallSound.failed (h : s.CallSound c) :
    s.CallSound { c with stage := .failed } := ⟨h.1, trivial⟩

theorem CallSound.read (h : s.CallSound c) : s.CallSound (c.read s.clock) := by
  unfold Call.read
  split_ifs with hcond
  · have hreads : ∀ m ∈ c.reads ++ [s.clock], m ≤ s.clock := by
      simpa [or_imp, forall_and] using h.1
    refine ⟨hreads, ?_⟩
    have hstage := h.2
    rcases hcond.1 with hc | hc <;> rw [hc] at hstage ⊢ <;> dsimp only at hstage ⊢
    obtain ⟨hwrote, hsince⟩ := hstage
    refine ⟨hwrote, ?_⟩
    simpa [or_imp, forall_and, hwrote.1] using hsince
  · exact h

theorem Sound.commit (h : s.Sound) (hc : s.CallSound c) (i : Nat) {change : Change}
    (hchange : c.change = some change)
    (hin : ∀ accessKey ∈ change.revokes, s.world.config.declaresKey accessKey = true →
      (s.history r.config).config.declaresKey accessKey = true) :
    (s.commit i c change r).Sound := by
  unfold Instance.commit
  cases hcheck : precheck (r.world s.history).config
      (merge (r.world s.history).config (r.world s.history).tables) change with
  | error err => exact h.setCall hc.failed i
  | ok _ =>
    cases happly : change.apply s.world.tables with
    | none => exact h.setCall hc.failed i
    | some tables =>
      refine (h.advance { s.world with tables := tables }).setCall (And.intro ?_ ?_) i
      · simp
      · refine And.intro ?_ (by simp)
        refine ⟨le_rfl, fun accessKey hdel => ?_⟩
        obtain rfl : change = .deleteCredential accessKey := by
          simpa [hchange] using hdel
        have hnow : (s.advance { s.world with tables := tables }).history (s.clock + 1) =
            { s.world with tables := tables } := Function.update_self _ _ _
        rw [hnow]
        refine ⟨not_stored_of_apply happly, Bool.eq_false_iff.mpr fun hdeclares => ?_⟩
        have hchecked := hin accessKey rfl hdeclares
        exact Bool.false_ne_true ((undeclared_of_precheck hcheck).symm.trans hchecked)

theorem Sound.swap (h : s.Sound) (hc : s.CallSound c) (i : Nat) (hstage : c.stage = .rebuilding)
    (hr : Reads.ofList c.reads = some r) (hin : s.readAt.NotAfter r) : (s.swap i c r).Sound := by
  obtain ⟨hupto, hwrote⟩ := hc
  rw [hstage] at hwrote
  unfold Instance.swap
  cases hreg : (r.world s.history).registry with
  | error err => exact h.setCall (c := { c with stage := .failed }) ⟨hupto, trivial⟩ i
  | ok registry =>
    refine ⟨hreg, Reads.upto_of_ofList hr hupto, fun c' hc' => ?_⟩
    rcases mem_or_eq_of_mem_set hc' with hold | rfl
    · obtain ⟨hupto', hold⟩ := h.calls c' hold
      refine ⟨hupto', ?_⟩
      cases hc : c'.stage <;> rw [hc] at hold <;> dsimp only at hold ⊢
      · exact hold
      · exact ⟨hold.1, hold.2.trans hin⟩
      · exact ⟨hold.1, hold.2.trans hin⟩
    · exact ⟨hupto, hwrote.1, Reads.since_of_ofList hr hwrote.2⟩

theorem Sound.step (h : s.Sound) {e : Event} (hin : s.InOrder e) : (s.step e).Sound := by
  have hcall : ∀ {i c}, s.calls[i]? = some c → s.CallSound c := fun hi =>
    h.calls _ (mem_of_getElem? hi)
  cases e with
  | begin c => exact h.addCall ⟨by simp, trivial⟩
  | announced => exact h.addCall ⟨by simp, ⟨Nat.zero_le _, by simp⟩, by simp⟩
  | reload cfg =>
    refine (h.advance { s.world with config := cfg }).addCall ⟨by simp, ?_, by simp⟩
    exact ⟨Nat.zero_le _, by simp⟩
  | elsewhere c =>
    dsimp only [Instance.step]
    cases c.apply s.world.tables with
    | none => exact h
    | some tables => exact h.advance _
  | read i =>
    dsimp only [Instance.step]
    cases hi : s.calls[i]? with
    | none => exact h
    | some c => exact h.setCall (hcall hi).read i
  | write i =>
    dsimp only [Instance.step]
    cases hi : s.calls[i]? with
    | none => exact h
    | some c =>
      dsimp only
      split
      next change r hstage hchange hr =>
        refine h.commit (hcall hi) i hchange fun accessKey hkey => ?_
        exact hin c hi accessKey (by rwa [hchange]) r hr
      next => exact h
  | install i =>
    dsimp only [Instance.step]
    cases hi : s.calls[i]? with
    | none => exact h
    | some c =>
      dsimp only
      split
      next r hstage hr => exact h.swap (hcall hi) i hstage hr (hin c hi hstage r hr)
      next => exact h
  | finish i =>
    dsimp only [Instance.step]
    cases hi : s.calls[i]? with
    | none => exact h
    | some c =>
      dsimp only
      split_ifs with hstage
      · obtain ⟨hupto, hpublished⟩ := hcall hi
        rw [hstage] at hpublished
        exact h.setCall (c := { c with stage := .returned }) ⟨hupto, hpublished⟩ i
      · exact h
  | fail i =>
    dsimp only [Instance.step]
    cases hi : s.calls[i]? with
    | none => exact h
    | some c =>
      dsimp only
      split_ifs
      · exact h
      · exact h.setCall (hcall hi).failed i

theorem Sound.revocationFinal (h : s.Sound) : s.RevocationFinal := by
  intro c hc hreturned
  obtain ⟨-, hstage⟩ := h.calls c hc
  rw [hreturned] at hstage
  obtain ⟨⟨-, hdeleted⟩, hsince⟩ := hstage
  have hsinceConfig := hsince.1
  have hsinceCreds := hsince.2.2.2.1
  obtain ⟨huptoConfig, -, -, huptoCreds, -⟩ := h.past
  refine ⟨fun accessKey hchange check hverify => ?_, fun change hchange hsets accessKey check u
    hverify hsrc a hallowed => ?_⟩
  · obtain ⟨hgone, hundeclared⟩ := hdeleted accessKey hchange
    obtain ⟨u, hu⟩ := Option.isSome_iff_exists.mp hverify
    rcases declared_of_verify h.built hu with hconfig | ⟨row, hrow, hkey⟩
    · refine ⟨s.readAt.config, lt_of_le_of_ne hsinceConfig ?_, huptoConfig, .inr hconfig⟩
      intro heq
      rw [heq] at hundeclared
      exact Bool.false_ne_true (hundeclared.symm.trans hconfig)
    · refine ⟨s.readAt.credentials, lt_of_le_of_ne hsinceCreds ?_, huptoCreds,
        .inl ⟨row, hrow, hkey⟩⟩
      intro heq
      rw [heq] at hgone
      exact hgone row hrow hkey
  · rw [allowed_of_verify h.built hverify hsrc a] at hallowed
    exact ⟨s.readAt, hsince, h.past, hallowed⟩

end Instance

/-- **Revocation is final as long as no rebuild is swapped in over a newer one**, and no reload
declares a credential under deletion, for every interleaving of calls, reloads, announcements and
changes made elsewhere. -/
theorem revocation_final (w : World) (registry : BucketRegistry)
    (hbuilt : w.registry = .ok registry) (run : List Event)
    (hin : Along Instance.step Instance.InOrder (Instance.start w registry) run) :
    (after Instance.step (Instance.start w registry) run).RevocationFinal := by
  have hstart : (Instance.start w registry).Sound :=
    ⟨hbuilt, ⟨le_rfl, le_rfl, le_rfl, le_rfl, le_rfl⟩, fun c hc => by cases hc⟩
  exact (hin.invariant hstart fun s e hs he => hs.step he).revocationFinal

def twoKeys : World where
  config := ⟨[], ⟨"", ""⟩, []⟩
  tables :=
    { buckets := ⟨["b"], by decide⟩
      users := ⟨[⟨"u", "user"⟩], by decide⟩
      credentials := ⟨[⟨"A", "u", "s", false⟩, ⟨"B", "u", "t", false⟩], by decide⟩
      grants := ⟨[⟨"u", ⟨.bucket, "b"⟩, permRead ||| permWrite⟩], by decide⟩ }

def registryOf (w : World) : BucketRegistry :=
  match w.registry with
  | .ok registry => registry
  | .error _ => ⟨fun _ => none⟩

theorem registry_eq_of_isOk {w : World} (h : w.registry.isOk = true) :
    w.registry = .ok (registryOf w) := by
  unfold registryOf
  cases hw : w.registry with
  | ok registry => rfl
  | error e =>
    rw [hw] at h
    cases h

def fiveReads (i : Nat) : List Event := List.replicate 5 (.read i)

def wholeCall (i : Nat) (c : Change) : List Event :=
  [.begin c] ++ fiveReads i ++ [.write i] ++ fiveReads i ++ [.install i, .finish i]

def revokeBoth : List Event :=
  wholeCall 1 (.deleteCredential "A") ++ wholeCall 2 (.setGrant ⟨"u", ⟨.bucket, "b"⟩, permRead⟩)

def swappedFirst : List Event := [.announced] ++ fiveReads 0 ++ [.install 0] ++ revokeBoth

theorem revocation_final_swappedFirst :
    Instance.RevocationFinal
      (after Instance.step (Instance.start twoKeys (registryOf twoKeys)) swappedFirst) :=
  revocation_final twoKeys (registryOf twoKeys) (registry_eq_of_isOk (by decide +kernel))
    swappedFirst (by decide +kernel)

def swappedLast : List Event := [.announced] ++ fiveReads 0 ++ revokeBoth ++ [.install 0]

/-- **The late swap brings back what was revoked**: key `A` authenticates, and key `B` may write to
the bucket. -/
theorem late_swap_restores_revoked :
    let s := after Instance.step (Instance.start twoKeys (registryOf twoKeys)) swappedLast
    s.calls.map Call.stage = [.published, .returned, .returned] ∧
      s.world.tables.credentials.rows.map StoredCredential.accessKeyID = ["B"] ∧
      s.world.tables.grants.rows.map Grant.permissions = [permRead] ∧
      (s.registry.verify "A" (· == "s")).isSome = true ∧
      (s.registry.verify "B" (· == "t")).any (·.allowed (.bucket "b" permWrite)) = true ∧
      ¬s.RevocationFinal := by
  intro s
  have hverify : (s.registry.verify "A" (· == "s")).isSome = true := by decide +kernel
  refine ⟨by decide +kernel, by decide +kernel, by decide +kernel, hverify, by decide +kernel,
    fun hfinal => ?_⟩
  have hclock : s.clock = 2 := by decide +kernel
  have hcall : s.calls[1]? =
      some ⟨some (.deleteCredential "A"), 1, [1, 1, 1, 1, 1], .returned⟩ := by decide +kernel
  have hstored : ∀ row ∈ (s.history 2).tables.credentials.rows, row.accessKeyID ≠ "A" := by
    decide +kernel
  have hconfig : (s.history 2).config.declaresKey "A" = false := by decide +kernel
  have hagain := (hfinal _ (mem_of_getElem? hcall) rfl).1 "A" rfl (· == "s") hverify
  obtain ⟨m, hlt, hle, hagain⟩ := hagain
  rw [hclock] at hle
  obtain rfl : m = 2 := le_antisymm hle hlt
  rcases hagain with ⟨row, hrow, hkey⟩ | hdeclares
  · exact hstored row hrow hkey
  · exact Bool.false_ne_true (hconfig.symm.trans hdeclares)

end S3Orchestrator.Provisioning
