import S3Orchestrator.Lib.Table

/-!
# The merged provisioning view

Buckets, users, credentials and grants are declared in two places, the configuration file and the
store. `merge` folds the two into one view, and `newBucketRegistry` turns the view into what a
request is authenticated and authorised against.

* **`allowed_of_verify`**: a stored user that is authenticated is allowed exactly that;
* **`declared_of_verify`**: an access key that is authenticated is declared by one of the two.
-/

namespace S3Orchestrator.Provisioning

open RowStore List Function

/-! ## Permissions and resources -/

/-- Sixty-four bits, one for each permission. -/
abbrev PermissionSet := BitVec 64

def PermissionSet.has (p want : PermissionSet) : Bool := p &&& want == want

def permAll : PermissionSet := 0x3F

def permRead : PermissionSet := 0x4
def permWrite : PermissionSet := 0x8

def permAdminAll : PermissionSet := 0x1FFC0

inductive ResourceKind
  | bucket
  | backend
  | orchestrator
  deriving DecidableEq, Repr

def resourceWildcard : String := "*"

structure Resource where
  kind : ResourceKind
  name : String
  deriving DecidableEq, Repr

def Resource.isWildcard (r : Resource) : Bool := r.name == resourceWildcard

def validOn : ResourceKind → PermissionSet
  | .bucket => permAll
  | _ => permAdminAll

def emptyPermissions : ResourceKind → PermissionSet
  | .bucket => permAll
  | _ => 0#64

/-! ## The stored tables -/

structure StoredUser where
  id : String
  name : String
  deriving DecidableEq, Repr

structure StoredCredential where
  accessKeyID : String
  userID : String
  secret : String
  disabled : Bool := false
  deriving DecidableEq, Repr

structure Grant where
  userID : String
  resource : Resource
  permissions : PermissionSet
  deriving DecidableEq, Repr

def sameBucketName (a b : String) : Bool := a == b

def sameStoredUser (a b : StoredUser) : Bool := a.id == b.id || a.name == b.name

def sameAccessKey (a b : StoredCredential) : Bool := a.accessKeyID == b.accessKeyID

def sameGrant (a b : Grant) : Bool := a.userID == b.userID && a.resource == b.resource

structure Snapshot where
  buckets : Table String sameBucketName
  users : Table StoredUser sameStoredUser
  credentials : Table StoredCredential sameAccessKey
  grants : Table Grant sameGrant

def grantFromColumns (g : Grant) : Grant :=
  if g.permissions = 0#64 then { g with permissions := emptyPermissions g.resource.kind } else g

def Snapshot.listGrants (s : Snapshot) : List Grant := s.grants.rows.map grantFromColumns

/-! ## Configuration -/

structure Keypair where
  accessKeyID : String
  secretAccessKey : String

def Keypair.complete (k : Keypair) : Bool := k.accessKeyID != "" && k.secretAccessKey != ""

structure BucketConfig where
  name : String
  credentials : List Keypair

structure Config where
  buckets : List BucketConfig
  root : Keypair
  backends : List String

def Config.declaresKey (cfg : Config) (accessKey : String) : Bool :=
  (cfg.root.complete && cfg.root.accessKeyID == accessKey) ||
    cfg.buckets.any fun b => b.credentials.any fun c => c.accessKeyID == accessKey

/-! ## The view -/

inductive Source
  | config
  | store
  deriving DecidableEq, Repr

structure Bucket where
  name : String
  source : Source

/-- An identity and its reach: the buckets of `grants`, any other one by `allBuckets`, the control
plane by `admin`. -/
structure User where
  id : String
  name : String
  grants : String → Option PermissionSet
  allBuckets : PermissionSet
  admin : Resource → Option PermissionSet
  source : Source

structure Credential where
  accessKeyID : String
  userID : String
  secret : String
  source : Source

structure View where
  buckets : List Bucket
  shadowed : List Bucket
  users : List User
  credentials : List Credential

def rootUserID : String := "config:root"

def configUserID (accessKeyID : String) : String := "config:" ++ accessKeyID

def mergeBuckets (cfgBuckets : List BucketConfig) (stored : List String) :
    List Bucket × List Bucket :=
  stored.foldl
    (fun v name =>
      if name ∈ v.1.map Bucket.name then (v.1, v.2 ++ [⟨name, .store⟩])
      else (v.1 ++ [⟨name, .store⟩], v.2))
    (cfgBuckets.map fun b => ⟨b.name, .config⟩, [])

def orInto {κ : Type} [DecidableEq κ] (m : κ → Option PermissionSet) (k : κ) (p : PermissionSet) :
    κ → Option PermissionSet :=
  Function.update m k (some ((m k).getD 0#64 ||| p))

abbrev Reach := String → String → Option PermissionSet

def expandWildcardGrant (declared : List String) (acc : Reach × (String → PermissionSet))
    (g : Grant) : Reach × (String → PermissionSet) :=
  if g.resource.kind ≠ .bucket ∨ g.resource.isWildcard = false then acc
  else
    (Function.update acc.1 g.userID
        (declared.foldl (fun m bucket => orInto m bucket g.permissions) (acc.1 g.userID)),
      Function.update acc.2 g.userID (acc.2 g.userID ||| g.permissions))

def expandWildcardGrants (grants : List Grant) (declared : List String) :
    Reach × (String → PermissionSet) :=
  grants.foldl (expandWildcardGrant declared) (fun _ _ => none, fun _ => 0#64)

/-- One named grant laid over `reach`. The first one on a bucket displaces the wildcard, and `named`
remembers it. -/
def applyNamedGrant (declared : List String) (acc : Reach × (String → String → Bool)) (g : Grant) :
    Reach × (String → String → Bool) :=
  if g.resource.kind ≠ .bucket ∨ g.resource.isWildcard = true ∨ g.resource.name ∉ declared then acc
  else
    let cleared := if acc.2 g.userID g.resource.name then acc.1 g.userID
      else Function.update (acc.1 g.userID) g.resource.name (some 0#64)
    (Function.update acc.1 g.userID (orInto cleared g.resource.name g.permissions),
      Function.update acc.2 g.userID (Function.update (acc.2 g.userID) g.resource.name true))

def applyNamedGrants (grants : List Grant) (declared : List String) (reach : Reach) : Reach :=
  (grants.foldl (applyNamedGrant declared) (reach, fun _ _ => false)).1

def grantsByUser (grants : List Grant) (declared : List String) :
    Reach × (String → PermissionSet) :=
  let expanded := expandWildcardGrants grants declared
  (applyNamedGrants grants declared expanded.1, expanded.2)

def adminGrantsByUser (grants : List Grant) : String → Resource → Option PermissionSet :=
  grants.foldl
    (fun admin g =>
      if g.resource.kind = .bucket then admin
      else Function.update admin g.userID (orInto (admin g.userID) g.resource g.permissions))
    fun _ _ => none

def rootUser (declared : List String) : User where
  id := rootUserID
  name := "root"
  grants := fun bucket => if bucket ∈ declared then some permAll else none
  allBuckets := permAll
  admin := fun r =>
    if r = ⟨.orchestrator, ""⟩ ∨ r = ⟨.backend, resourceWildcard⟩ then some permAdminAll else none
  source := .config

def configUser (bucket accessKeyID : String) : User where
  id := configUserID accessKeyID
  name := bucket
  grants := fun b => if b = bucket then some permAll else none
  allBuckets := 0#64
  admin := fun _ => none
  source := .config

def mergedUser (grants : List Grant) (declared : List String) (u : StoredUser) : User where
  id := u.id
  name := u.name
  grants := (grantsByUser grants declared).1 u.id
  allBuckets := (grantsByUser grants declared).2 u.id
  admin := adminGrantsByUser grants u.id
  source := .store

def mergeRootUser (cfg : Config) (declared : List String) : List User × List Credential :=
  if cfg.root.complete then
    ([rootUser declared], [⟨cfg.root.accessKeyID, rootUserID, cfg.root.secretAccessKey, .config⟩])
  else ([], [])

def mergeConfigUsers (cfgBuckets : List BucketConfig) : List User × List Credential :=
  (cfgBuckets.flatMap fun b => b.credentials.map fun c => configUser b.name c.accessKeyID,
    cfgBuckets.flatMap fun b => b.credentials.map fun c =>
      ⟨c.accessKeyID, configUserID c.accessKeyID, c.secretAccessKey, .config⟩)

def mergeStoredUsers (s : Snapshot) (declared : List String) : List User × List Credential :=
  (s.users.rows.map (mergedUser s.listGrants declared),
    (s.credentials.rows.filter fun c =>
      !c.disabled && s.users.rows.any fun u => u.id == c.userID).map fun c =>
        ⟨c.accessKeyID, c.userID, c.secret, .store⟩)

def merge (cfg : Config) (s : Snapshot) : View :=
  let buckets := mergeBuckets cfg.buckets s.buckets.rows
  let declared := buckets.1.map Bucket.name
  let root := mergeRootUser cfg declared
  let configured := mergeConfigUsers cfg.buckets
  let stored := mergeStoredUsers s declared
  { buckets := buckets.1
    shadowed := buckets.2
    users := root.1 ++ configured.1 ++ stored.1
    credentials := root.2 ++ configured.2 ++ stored.2 }

def declaredNames (cfg : Config) (s : Snapshot) : List String :=
  (mergeBuckets cfg.buckets s.buckets.rows).1.map Bucket.name

theorem credentials_merge (cfg : Config) (s : Snapshot) : (merge cfg s).credentials =
    (mergeRootUser cfg (declaredNames cfg s)).2 ++ (mergeConfigUsers cfg.buckets).2 ++
      (mergeStoredUsers s (declaredNames cfg s)).2 := rfl

/-! ## The registry -/

structure Entry where
  secret : String
  user : User

structure BucketRegistry where
  byAccessKey : String → Option Entry

structure DuplicateCredential where
  accessKeyID : String
  prior : String
  claimed : String

def usersByID (users : List User) : String → Option User :=
  users.foldl (fun m u => Function.update m u.id (some u)) fun _ => none

def addKeypair (m : String → Option Entry) (c : Credential) (u : User) :
    Except DuplicateCredential (String → Option Entry) :=
  if c.accessKeyID = "" ∨ c.secret = "" then .ok m
  else
    match m c.accessKeyID with
    | some prior =>
      if c.source = .store then .ok m
      else .error ⟨c.accessKeyID, prior.user.name, u.name⟩
    | none => .ok (Function.update m c.accessKeyID (some ⟨c.secret, u⟩))

def register (users : String → Option User) (src : Source) :
    List Credential → (String → Option Entry) →
      Except DuplicateCredential (String → Option Entry)
  | [], m => .ok m
  | c :: creds, m =>
    if c.source ≠ src then register users src creds m
    else
      match users c.userID with
      | none => register users src creds m
      | some u => (addKeypair m c u).bind (register users src creds)

def newBucketRegistry (v : View) : Except DuplicateCredential BucketRegistry :=
  let users := usersByID v.users
  (register users .config v.credentials fun _ => none).bind fun m =>
    (register users .store v.credentials m).map BucketRegistry.mk

/-- The user behind an access key whose secret passes. An unknown key is checked against a dummy
secret, in vain. -/
def BucketRegistry.verify (br : BucketRegistry) (accessKey : String) (check : String → Bool) :
    Option User :=
  match br.byAccessKey accessKey with
  | some e => if check e.secret then some e.user else none
  | none => none

namespace User

variable (u : User)

def permissions (bucket : String) : Option PermissionSet :=
  match u.grants bucket with
  | some held => some held
  | none => if u.allBuckets ≠ 0#64 then some u.allBuckets else none

def adminPermissions (r : Resource) : PermissionSet :=
  let held := (u.admin r).getD 0#64
  if r.kind ≠ .orchestrator ∧ r.isWildcard = false then
    held ||| (u.admin ⟨r.kind, resourceWildcard⟩).getD 0#64
  else held

end User

/-- An operation on one bucket, on a range of keys no one bucket holds, or on a resource of the
control plane. -/
inductive Access
  | bucket (name : String) (want : PermissionSet)
  | allBuckets (want : PermissionSet)
  | admin (r : Resource) (want : PermissionSet)

def User.allowed (u : User) : Access → Bool
  | .bucket name want => (u.permissions name).any (PermissionSet.has · want)
  | .allBuckets want => PermissionSet.has u.allBuckets want
  | .admin r want => PermissionSet.has (u.adminPermissions r) want

/-! ## What the rows allow -/

def carried (grants : List Grant) : PermissionSet :=
  grants.foldl (fun p g => p ||| g.permissions) 0#64

def grantsOn (grants : List Grant) (userID : String) (r : Resource) : List Grant :=
  grants.filter fun g => g.userID == userID && g.resource == r

def bucketWildcard : Resource := ⟨.bucket, resourceWildcard⟩

/-- What the grants table allows a user. A grant that names a declared bucket answers alone for it;
otherwise the wildcard. -/
def storedAllow (declared : List String) (grants : List Grant) (userID : String) : Access → Bool
  | .bucket name want =>
    let named := grantsOn grants userID ⟨.bucket, name⟩
    let wild := grantsOn grants userID bucketWildcard
    if name ∈ declared then
      if named ≠ [] then PermissionSet.has (carried named) want
      else wild ≠ [] && PermissionSet.has (carried wild) want
    else carried wild ≠ 0#64 && PermissionSet.has (carried wild) want
  | .allBuckets want => PermissionSet.has (carried (grantsOn grants userID bucketWildcard)) want
  | .admin r want =>
    let wild := grantsOn grants userID ⟨r.kind, resourceWildcard⟩
    let held := carried (grantsOn grants userID r)
    if r.kind = .bucket then PermissionSet.has 0#64 want
    else
      PermissionSet.has
        (if r.kind ≠ .orchestrator ∧ r.isWildcard = false then held ||| carried wild else held) want

section Rows

variable {grants : List Grant} {declared : List String} {userID : String}

@[simp] theorem carried_append (grants : List Grant) (g : Grant) :
    carried (grants ++ [g]) = carried grants ||| g.permissions := by
  simp [carried, foldl_append]

theorem grantsOn_append (grants : List Grant) (g : Grant) (userID : String) (r : Resource) :
    grantsOn (grants ++ [g]) userID r =
      if g.userID = userID ∧ g.resource = r then grantsOn grants userID r ++ [g]
      else grantsOn grants userID r := by
  unfold grantsOn
  rw [filter_append]
  split_ifs with h
  · simp [h.1, h.2]
  · have hnil : [g].filter (fun g => g.userID == userID && g.resource == r) = [] := by simpa using h
    rw [hnil, append_nil]

theorem ne_bucketWildcard_iff {r : Resource} :
    r.kind ≠ .bucket ∨ r.isWildcard = false ↔ r ≠ bucketWildcard := by
  obtain ⟨kind, name⟩ := r
  simp only [Resource.isWildcard, bucketWildcard, ne_eq, Resource.mk.injEq, beq_eq_false_iff_ne]
  tauto

theorem foldl_orInto (p : PermissionSet) (declared : List String)
    (m : String → Option PermissionSet) (bucket : String) :
    declared.foldl (fun m b => orInto m b p) m bucket =
      if bucket ∈ declared then some ((m bucket).getD 0#64 ||| p) else m bucket := by
  induction declared generalizing m with
  | nil => simp
  | cons b declared ih =>
    rw [foldl_cons, ih]
    by_cases hb : bucket = b
    · subst hb
      simp [orInto, BitVec.or_assoc]
    · simp [orInto, hb]

theorem expandWildcardGrants_eq (grants : List Grant) (declared : List String) (userID : String) :
    (expandWildcardGrants grants declared).2 userID =
        carried (grantsOn grants userID bucketWildcard) ∧
      ∀ bucket, (expandWildcardGrants grants declared).1 userID bucket =
        if bucket ∈ declared ∧ grantsOn grants userID bucketWildcard ≠ [] then
          some (carried (grantsOn grants userID bucketWildcard))
        else none := by
  induction grants using reverseRecOn with
  | nil => simp [expandWildcardGrants, grantsOn, carried]
  | append_singleton grants g ih =>
    have hstep : expandWildcardGrants (grants ++ [g]) declared =
        expandWildcardGrant declared (expandWildcardGrants grants declared) g := by
      simp [expandWildcardGrants]
    obtain ⟨ihWild, ihReach⟩ := ih
    rw [hstep, expandWildcardGrant, grantsOn_append]
    by_cases hg : g.resource = bucketWildcard
    · rw [if_neg fun h => ne_bucketWildcard_iff.mp h hg]
      by_cases hu : userID = g.userID
      · subst hu
        refine ⟨by simp [ihWild, hg], fun bucket => ?_⟩
        simp only [update_self, foldl_orInto, ihReach]
        by_cases hb : bucket ∈ declared
        · by_cases hw : grantsOn grants g.userID bucketWildcard = []
          · simp [hg, hw, carried]
          · simp [hb, hg, hw]
        · simp [hb]
      · simpa [hu, Ne.symm hu, hg] using And.intro ihWild ihReach
    · rw [if_pos (ne_bucketWildcard_iff.mpr hg), if_neg fun h => hg h.2]
      exact ⟨ihWild, ihReach⟩

def Displaces (declared : List String) (grants : List Grant) (userID bucket : String) : Prop :=
  bucket ∈ declared ∧ bucket ≠ resourceWildcard ∧ grantsOn grants userID ⟨.bucket, bucket⟩ ≠ []
  deriving Decidable

theorem displaces_append (declared : List String) (grants : List Grant) (g : Grant)
    (userID bucket : String) : Displaces declared (grants ++ [g]) userID bucket ↔
      Displaces declared grants userID bucket ∨
        (bucket ∈ declared ∧ bucket ≠ resourceWildcard ∧ g.userID = userID ∧
          g.resource = ⟨.bucket, bucket⟩) := by
  unfold Displaces
  rw [grantsOn_append]
  split_ifs with h
  · simp
    tauto
  · tauto

variable {acc : Reach × (String → String → Bool)}

theorem applyNamedGrant_of_ne {g : Grant} {bucket : String}
    (h : ¬(bucket ∈ declared ∧ bucket ≠ resourceWildcard ∧ g.userID = userID ∧
      g.resource = ⟨.bucket, bucket⟩)) :
    (applyNamedGrant declared acc g).1 userID bucket = acc.1 userID bucket ∧
      (applyNamedGrant declared acc g).2 userID bucket = acc.2 userID bucket := by
  unfold applyNamedGrant
  by_cases hskip : g.resource.kind ≠ .bucket ∨ g.resource.isWildcard = true ∨
      g.resource.name ∉ declared
  · rw [if_pos hskip]
    exact ⟨rfl, rfl⟩
  · rw [if_neg hskip]
    obtain ⟨hkind, hwild, hdecl⟩ : g.resource.kind = .bucket ∧
        g.resource.name ≠ resourceWildcard ∧ g.resource.name ∈ declared := by
      simpa [Resource.isWildcard] using hskip
    by_cases hu : userID = g.userID
    · have hb : bucket ≠ g.resource.name := by
        rintro rfl
        exact h ⟨hdecl, hwild, hu.symm, by rw [← hkind]⟩
      subst hu
      by_cases hnamed : acc.2 g.userID g.resource.name = true <;> simp [orInto, hb, hnamed]
    · simp [hu]

theorem applyNamedGrant_self {g : Grant} {bucket : String} (hd : bucket ∈ declared)
    (hw : bucket ≠ resourceWildcard) (hr : g.resource = ⟨.bucket, bucket⟩) :
    (applyNamedGrant declared acc g).1 g.userID bucket =
        some ((if acc.2 g.userID bucket then (acc.1 g.userID bucket).getD 0#64 else 0#64) |||
          g.permissions) ∧
      (applyNamedGrant declared acc g).2 g.userID bucket = true := by
  have hskip : ¬(g.resource.kind ≠ .bucket ∨ g.resource.isWildcard = true ∨
      g.resource.name ∉ declared) := by
    simp [hr, Resource.isWildcard, hd, hw]
  unfold applyNamedGrant
  rw [if_neg hskip]
  simp only [hr]
  split_ifs <;> simp [orInto]

theorem foldl_applyNamedGrant (grants : List Grant) (declared : List String) (reach : Reach)
    (userID bucket : String) :
    let acc := grants.foldl (applyNamedGrant declared) (reach, fun _ _ => false)
    acc.2 userID bucket = decide (Displaces declared grants userID bucket) ∧ acc.1 userID bucket =
        if Displaces declared grants userID bucket then
          some (carried (grantsOn grants userID ⟨.bucket, bucket⟩))
        else reach userID bucket := by
  induction grants using reverseRecOn with
  | nil => simp [Displaces, grantsOn]
  | append_singleton grants g ih =>
    dsimp only at ih ⊢
    obtain ⟨ihNamed, ihReach⟩ := ih
    rw [foldl_append, foldl_cons, foldl_nil]
    simp only [displaces_append]
    by_cases hon : bucket ∈ declared ∧ bucket ≠ resourceWildcard ∧ g.userID = userID ∧
        g.resource = ⟨.bucket, bucket⟩
    · obtain ⟨hd, hw, rfl, hr⟩ := hon
      obtain ⟨hvalue, hflag⟩ := applyNamedGrant_self hd hw hr
      have happend : grantsOn (grants ++ [g]) g.userID ⟨.bucket, bucket⟩ =
          grantsOn grants g.userID ⟨.bucket, bucket⟩ ++ [g] := by
        rw [grantsOn_append, if_pos ⟨rfl, hr⟩]
      rw [hvalue, hflag, ihNamed, ihReach, happend, carried_append]
      by_cases hold : Displaces declared grants g.userID bucket
      · simp [hold, hd, hw, hr]
      · have hnil : grantsOn grants g.userID ⟨.bucket, bucket⟩ = [] := by
          by_contra hne
          exact hold ⟨hd, hw, hne⟩
        simp [hold, hd, hw, hr, hnil, carried]
    · obtain ⟨hvalue, hflag⟩ := applyNamedGrant_of_ne hon
      rw [hvalue, hflag, ihNamed, ihReach]
      simp only [hon, or_false, true_and]
      split_ifs with hold
      · rw [grantsOn_append, if_neg fun h => hon ⟨hold.1, hold.2.1, h⟩]
      · rfl

theorem adminGrantsByUser_eq (grants : List Grant) (userID : String) (r : Resource) :
    (adminGrantsByUser grants userID r).getD 0#64 =
      if r.kind = .bucket then 0#64 else carried (grantsOn grants userID r) := by
  induction grants using reverseRecOn with
  | nil => simp [adminGrantsByUser, grantsOn, carried]
  | append_singleton grants g ih =>
    have hstep : adminGrantsByUser (grants ++ [g]) =
        if g.resource.kind = .bucket then adminGrantsByUser grants
        else update (adminGrantsByUser grants) g.userID
          (orInto (adminGrantsByUser grants g.userID) g.resource g.permissions) := by
      simp [adminGrantsByUser]
    rw [hstep, grantsOn_append]
    by_cases hon : g.userID = userID ∧ g.resource = r
    · obtain ⟨rfl, rfl⟩ := hon
      by_cases hbucket : g.resource.kind = .bucket
      · simpa [hbucket] using ih
      · rw [if_neg hbucket] at ih
        simp [hbucket, orInto, ih]
    · rw [if_neg hon, ← ih]
      split_ifs with hbucket
      · rfl
      · by_cases hu : userID = g.userID
        · subst hu
          have hne : r ≠ g.resource := fun h => hon ⟨rfl, h.symm⟩
          simp [orInto, hne]
        · simp [hu]

theorem permissions_mergedUser (grants : List Grant) (declared : List String) (u : StoredUser)
    (bucket : String) :
    (mergedUser grants declared u).permissions bucket =
      if Displaces declared grants u.id bucket then
        some (carried (grantsOn grants u.id ⟨.bucket, bucket⟩))
      else if bucket ∈ declared ∧ grantsOn grants u.id bucketWildcard ≠ [] then
        some (carried (grantsOn grants u.id bucketWildcard))
      else if carried (grantsOn grants u.id bucketWildcard) ≠ 0#64 then
        some (carried (grantsOn grants u.id bucketWildcard))
      else none := by
  obtain ⟨hwild, hreach⟩ := expandWildcardGrants_eq grants declared u.id
  have hnamed := (foldl_applyNamedGrant grants declared (expandWildcardGrants grants declared).1
    u.id bucket).2
  have hgrants : (mergedUser grants declared u).grants bucket =
      if Displaces declared grants u.id bucket then
        some (carried (grantsOn grants u.id ⟨.bucket, bucket⟩))
      else if bucket ∈ declared ∧ grantsOn grants u.id bucketWildcard ≠ [] then
        some (carried (grantsOn grants u.id bucketWildcard))
      else none := by
    rw [← hreach bucket]
    exact hnamed
  have hall : (mergedUser grants declared u).allBuckets =
      carried (grantsOn grants u.id bucketWildcard) := hwild
  unfold User.permissions
  rw [hgrants, hall]
  split_ifs <;> rfl

theorem allowed_mergedUser (grants : List Grant) (declared : List String) (u : StoredUser)
    (a : Access) :
    (mergedUser grants declared u).allowed a = storedAllow declared grants u.id a := by
  cases a with
  | bucket name want =>
    simp only [User.allowed, storedAllow, permissions_mergedUser]
    by_cases hd : name ∈ declared
    · by_cases hn : grantsOn grants u.id ⟨.bucket, name⟩ = []
      · have hold : ¬Displaces declared grants u.id name := fun h => h.2.2 hn
        by_cases hw : grantsOn grants u.id bucketWildcard = []
        · simp [hd, hn, hw, hold, carried]
        · simp [hd, hn, hw, hold]
      · by_cases hstar : name = resourceWildcard
        · -- the bucket wildcard is no named grant
          subst hstar
          have hname : (⟨.bucket, resourceWildcard⟩ : Resource) = bucketWildcard := rfl
          rw [hname] at hn ⊢
          simp [hd, hn]
        · have hold : Displaces declared grants u.id name := ⟨hd, hstar, hn⟩
          simp [hd, hn, hold]
    · have hold : ¬Displaces declared grants u.id name := fun h => hd h.1
      by_cases hzero : carried (grantsOn grants u.id bucketWildcard) = 0#64 <;>
        simp [hd, hold, hzero]
  | allBuckets want =>
    have hall : (mergedUser grants declared u).allBuckets =
        carried (grantsOn grants u.id bucketWildcard) :=
      (expandWildcardGrants_eq grants declared u.id).1
    rw [User.allowed, storedAllow, hall]
  | admin r want =>
    have hadmin := adminGrantsByUser_eq grants u.id
    simp only [User.allowed, storedAllow, User.adminPermissions, mergedUser, hadmin]
    by_cases hbucket : r.kind = .bucket <;> simp [hbucket]

end Rows

/-! ## What the registry knows -/

section Registry

variable {v : View} {cfg : Config} {s : Snapshot} {br : BucketRegistry} {accessKey : String}
  {u : User} {check : String → Bool} {e : Entry}

theorem of_usersByID {users : List User} {id : String} (h : usersByID users id = some u) :
    u ∈ users ∧ u.id = id := by
  induction users using reverseRecOn with
  | nil => exact absurd h (by simp [usersByID])
  | append_singleton users u' ih =>
    have hstep : usersByID (users ++ [u']) = update (usersByID users) u'.id (some u') := by
      simp [usersByID]
    rw [hstep] at h
    by_cases hid : id = u'.id
    · subst hid
      obtain rfl : u' = u := by simpa using h
      simp
    · rw [update_of_ne hid] at h
      obtain ⟨hmem, hu⟩ := ih h
      exact ⟨mem_append_left _ hmem, hu⟩

variable {m m' : String → Option Entry}

theorem of_addKeypair {c : Credential} (h : addKeypair m c u = .ok m')
    (he : m' accessKey = some e) :
    m accessKey = some e ∨ (c.accessKeyID = accessKey ∧ e.user = u) := by
  by_cases hempty : c.accessKeyID = "" ∨ c.secret = ""
  · rw [addKeypair, if_pos hempty] at h
    cases h
    exact .inl he
  · rw [addKeypair, if_neg hempty] at h
    cases hm : m c.accessKeyID with
    | some prior =>
      simp only [hm] at h
      split_ifs at h
      cases h
      exact .inl he
    | none =>
      simp only [hm] at h
      cases h
      by_cases hk : accessKey = c.accessKeyID
      · subst hk
        rw [update_self] at he
        cases he
        exact .inr ⟨rfl, rfl⟩
      · rw [update_of_ne hk] at he
        exact .inl he

theorem of_register {users : String → Option User} {src : Source} {creds : List Credential}
    (h : register users src creds m = .ok m') (he : m' accessKey = some e) :
    m accessKey = some e ∨
      ∃ c ∈ creds, c.accessKeyID = accessKey ∧ users c.userID = some e.user := by
  induction creds generalizing m with
  | nil =>
    cases h
    exact .inl he
  | cons c creds ih =>
    -- what the credentials after `c` register
    have hrest : ∀ {m1}, register users src creds m1 = .ok m' → m1 accessKey = some e ∨
        ∃ c' ∈ c :: creds, c'.accessKeyID = accessKey ∧ users c'.userID = some e.user :=
      fun h1 => (ih h1).imp_right fun ⟨c', hc', hkey⟩ => ⟨c', mem_cons_of_mem _ hc', hkey⟩
    rw [register] at h
    split_ifs at h with hsrc
    · exact hrest h
    · cases hu : users c.userID with
      | none =>
        rw [hu] at h
        exact hrest h
      | some u =>
        rw [hu] at h
        dsimp only at h
        cases hadd : addKeypair m c u with
        | error err =>
          rw [hadd] at h
          cases h
        | ok m1 =>
          rw [hadd] at h
          rcases hrest h with hm1 | hfound
          · refine (of_addKeypair hadd hm1).imp_right fun ⟨hkey, huser⟩ => ?_
            exact ⟨c, mem_cons_self, hkey, by rw [hu, huser]⟩
          · exact .inr hfound

theorem of_newBucketRegistry (h : newBucketRegistry v = .ok br)
    (he : br.byAccessKey accessKey = some e) :
    (∃ c ∈ v.credentials, c.accessKeyID = accessKey) ∧ e.user ∈ v.users := by
  unfold newBucketRegistry at h
  cases hcfg : register (usersByID v.users) .config v.credentials fun _ => none with
  | error err =>
    simp only [hcfg] at h
    cases h
  | ok m =>
    cases hstore : register (usersByID v.users) .store v.credentials m with
    | error err =>
      simp only [hcfg, Except.bind, hstore] at h
      cases h
    | ok m' =>
      simp only [hcfg, Except.bind, hstore] at h
      cases h
      have hfound : ∃ c ∈ v.credentials, c.accessKeyID = accessKey ∧
          usersByID v.users c.userID = some e.user := by
        rcases of_register hstore he with hm | hfound
        · exact (of_register hcfg hm).resolve_left (by simp)
        · exact hfound
      obtain ⟨c, hc, hkey, huser⟩ := hfound
      exact ⟨⟨c, hc, hkey⟩, (of_usersByID huser).1⟩

theorem of_verify (h : br.verify accessKey check = some u) :
    ∃ e, br.byAccessKey accessKey = some e ∧ e.user = u := by
  unfold BucketRegistry.verify at h
  cases he : br.byAccessKey accessKey with
  | none =>
    rw [he] at h
    cases h
  | some e =>
    rw [he] at h
    dsimp only at h
    split_ifs at h
    exact ⟨e, rfl, Option.some.inj h⟩

theorem declared_of_mem_credentials {c : Credential} (h : c ∈ (merge cfg s).credentials) :
    cfg.declaresKey c.accessKeyID = true ∨
      ∃ row ∈ s.credentials.rows, row.accessKeyID = c.accessKeyID := by
  rcases mem_append.mp h with h | h
  · refine .inl ?_
    unfold Config.declaresKey
    rw [Bool.or_eq_true]
    rcases mem_append.mp h with h | h
    · unfold mergeRootUser at h
      split_ifs at h with hroot
      · obtain rfl : c = _ := by simpa using h
        exact .inl (by simp [hroot])
      · cases h
    · obtain ⟨b, hb, hc⟩ := mem_flatMap.mp h
      obtain ⟨k, hk, rfl⟩ := mem_map.mp hc
      exact .inr (any_eq_true.mpr ⟨b, hb, any_eq_true.mpr ⟨k, hk, by simp⟩⟩)
  · obtain ⟨row, hrow, rfl⟩ := mem_map.mp h
    exact .inr ⟨row, (mem_filter.mp hrow).1, rfl⟩

theorem of_mem_users (h : u ∈ (merge cfg s).users) (hsrc : u.source = .store) :
    ∃ row, u = mergedUser s.listGrants (declaredNames cfg s) row := by
  rcases mem_append.mp h with h | h
  · rcases mem_append.mp h with h | h
    · unfold mergeRootUser at h
      split_ifs at h
      · obtain rfl : u = _ := by simpa using h
        cases hsrc
      · cases h
    · obtain ⟨b, hb, hc⟩ := mem_flatMap.mp h
      obtain ⟨k, hk, rfl⟩ := mem_map.mp hc
      cases hsrc
  · obtain ⟨row, hrow, rfl⟩ := mem_map.mp h
    exact ⟨row, rfl⟩

theorem declared_of_verify (h : newBucketRegistry (merge cfg s) = .ok br)
    (hv : br.verify accessKey check = some u) :
    cfg.declaresKey accessKey = true ∨ ∃ row ∈ s.credentials.rows, row.accessKeyID = accessKey := by
  obtain ⟨e, he, -⟩ := of_verify hv
  obtain ⟨⟨c, hc, rfl⟩, -⟩ := of_newBucketRegistry h he
  exact declared_of_mem_credentials hc

theorem allowed_of_verify (h : newBucketRegistry (merge cfg s) = .ok br)
    (hv : br.verify accessKey check = some u) (hsrc : u.source = .store) (a : Access) :
    u.allowed a = storedAllow (declaredNames cfg s) s.listGrants u.id a := by
  obtain ⟨e, he, rfl⟩ := of_verify hv
  obtain ⟨row, hrow⟩ := of_mem_users (of_newBucketRegistry h he).2 hsrc
  rw [hrow]
  exact allowed_mergedUser _ _ row a

end Registry

end S3Orchestrator.Provisioning
