import S3Orchestrator.Provisioning.View

/-!
# Authorising keys and prefixes

Every surface that addresses objects by a bucket-qualified key asks `authorizeKey`. What stands
before the first slash is the bucket. A key without a slash spans every bucket whose name it begins,
and is judged by the bucket wildcard.

* **`allowed_within_grants_iff`**.
-/

namespace S3Orchestrator.Provisioning

open List PermissionSet

/-! ## The decision -/

def reasonNoBucket : String := "resource names no bucket"
def reasonNoGrant : String := "no grant on the bucket"
def reasonPermission : String := "grant does not carry the permission"

def cutSlash (key : String) : String × Bool :=
  (String.ofList (key.toList.takeWhile (· != '/')), key.toList.contains '/')

def permissionsOf (u : Option User) (bucket : String) : Option PermissionSet :=
  u.bind fun u => u.permissions bucket

def allBucketsOf (u : Option User) : PermissionSet := u.elim 0#64 User.allBuckets

/-- The decision on a bucket, and the reason of a refusal. -/
def authorizeBucket (u : Option User) (bucket : String) (want : PermissionSet) : String × Bool :=
  match permissionsOf u bucket with
  | none => (reasonNoGrant, false)
  | some held => if PermissionSet.has held want then ("", true) else (reasonPermission, false)

/-- The bucket, the reason of a refusal, and whether the user may exercise `want` on the key. -/
def authorizeKey (u : Option User) (key : String) (want : PermissionSet) :
    String × String × Bool :=
  let (bucket, found) := cutSlash key
  if !found || bucket == "" then
    if PermissionSet.has (allBucketsOf u) want then ("", "", true) else ("", reasonNoBucket, false)
  else
    let (reason, ok) := authorizeBucket u bucket want
    (bucket, reason, ok)

def validBucketName (name : String) : Bool := name != "" && !name.toList.contains '/'

/-! ## What the grants come to -/

/-- The grants that a configuration stands for. -/
def configGrants (cfg : Config) : List Grant :=
  (if cfg.root.complete then [⟨rootUserID, bucketWildcard, permAll⟩] else []) ++
    cfg.buckets.flatMap fun b => b.credentials.map fun c =>
      ⟨configUserID c.accessKeyID, ⟨.bucket, b.name⟩, permAll⟩

/-- The grants of the place a user comes from. -/
def grantsOf (cfg : Config) (s : Snapshot) (u : User) : List Grant :=
  match u.source with
  | .config => configGrants cfg
  | .store => s.listGrants

/-- What a user holds on a bucket: the union of the grants that name it if any, otherwise of the
bucket wildcards. -/
def effective (grants : List Grant) (userID bucket : String) : PermissionSet :=
  if grantsOn grants userID ⟨.bucket, bucket⟩ ≠ [] then
    carried (grantsOn grants userID ⟨.bucket, bucket⟩)
  else carried (grantsOn grants userID bucketWildcard)

/-- Some key of the bucket begins with the string. -/
def Spans (key bucket : String) : Prop :=
  ∃ name : String, key.toList <+: (bucket ++ "/" ++ name).toList

/-- The string has no slash, the user's wildcard carries what is wanted, and a grant on a declared
bucket whose name begins with it carries less. -/
def Narrowed (declared : List String) (grants : List Grant) (userID key : String)
    (want : PermissionSet) : Prop :=
  '/' ∉ key.toList ∧
    PermissionSet.has (carried (grantsOn grants userID bucketWildcard)) want = true ∧
    ∃ b ∈ declared, key.toList <+: b.toList ∧ grantsOn grants userID ⟨.bucket, b⟩ ≠ [] ∧
      PermissionSet.has (carried (grantsOn grants userID ⟨.bucket, b⟩)) want = false

/-! ## Permissions -/

section Permissions

variable {want : PermissionSet} {grants : List Grant} {userID bucket : String}

theorem eq_zero_of_has_zero (h : has 0#64 want = true) : want = 0#64 := by
  unfold has at h
  rw [BitVec.zero_and, beq_iff_eq] at h
  exact h.symm

theorem has_zero (held : PermissionSet) : has held 0#64 = true := by
  unfold has
  rw [BitVec.and_zero, beq_iff_eq]

theorem effective_of_named (h : grantsOn grants userID ⟨.bucket, bucket⟩ ≠ []) :
    effective grants userID bucket = carried (grantsOn grants userID ⟨.bucket, bucket⟩) :=
  if_pos h

theorem effective_of_unnamed (h : grantsOn grants userID ⟨.bucket, bucket⟩ = []) :
    effective grants userID bucket = carried (grantsOn grants userID bucketWildcard) :=
  if_neg (not_not_intro h)

theorem carried_of_permAll (hall : ∀ g ∈ grants, g.permissions = permAll) (hne : grants ≠ []) :
    carried grants = permAll := by
  induction grants using reverseRecOn with
  | nil => exact absurd rfl hne
  | append_singleton grants g ih =>
    rw [carried_append, hall g (by simp)]
    by_cases hnil : grants = []
    · rw [hnil]
      decide
    · rw [ih (fun g' hg' => hall g' (mem_append_left _ hg')) hnil]
      decide

theorem carried_configGrants {cfg : Config} {r : Resource}
    (hne : grantsOn (configGrants cfg) userID r ≠ []) :
    carried (grantsOn (configGrants cfg) userID r) = permAll := by
  refine carried_of_permAll (fun g hg => ?_) hne
  rcases mem_append.mp (mem_filter.mp hg).1 with hroot | hbucket
  · split_ifs at hroot with hcomplete
    · obtain rfl : g = _ := by simpa using hroot
      rfl
    · cases hroot
  · obtain ⟨b, -, hcred⟩ := mem_flatMap.mp hbucket
    obtain ⟨c, -, rfl⟩ := mem_map.mp hcred
    rfl

end Permissions

/-! ## Keys and the buckets they span -/

section Keys

variable {key bucket : String}

theorem validBucketName_iff :
    validBucketName bucket = true ↔ bucket ≠ "" ∧ '/' ∉ bucket.toList := by
  simp [validBucketName]

theorem toList_key (bucket name : String) :
    (bucket ++ "/" ++ name).toList = bucket.toList ++ '/' :: name.toList := by
  simp

theorem spans_iff_of_noSlash (h : '/' ∉ key.toList) :
    Spans key bucket ↔ key.toList <+: bucket.toList := by
  constructor
  · rintro ⟨name, hname⟩
    rw [toList_key] at hname
    rcases prefix_or_prefix_of_prefix hname (prefix_append _ _) with hshort | ⟨t, ht⟩
    · exact hshort
    · -- what the string has beyond the bucket begins with the slash
      rw [← ht, prefix_append_right_inj] at hname
      cases t with
      | nil =>
        rw [append_nil] at ht
        exact ht ▸ prefix_rfl
      | cons c t =>
        obtain ⟨rfl, -⟩ := cons_prefix_cons.mp hname
        exact absurd (by rw [← ht]; simp) h
  · intro hle
    refine ⟨"", hle.trans ?_⟩
    rw [toList_key]
    exact prefix_append _ _

theorem eq_segment_of_spans (hslash : '/' ∈ key.toList) (hvalid : validBucketName bucket = true)
    (h : Spans key bucket) : (cutSlash key).1 = bucket := by
  obtain ⟨name, t, ht⟩ := h
  have hfree : ∀ c ∈ bucket.toList, (c != '/') = true := fun c hc =>
    bne_iff_ne.mpr fun hc' => (validBucketName_iff.mp hvalid).2 (hc' ▸ hc)
  have hbucket : (key.toList ++ t).takeWhile (· != '/') = bucket.toList := by
    rw [ht, toList_key, takeWhile_append_of_pos hfree]
    simp
  have hkey : (key.toList.takeWhile (· != '/')).length ≠ key.toList.length := by
    intro hlen
    have hall : (key.toList.takeWhile (· != '/')).all (· != '/') = true := all_takeWhile
    rw [( takeWhile_prefix _).eq_of_length hlen] at hall
    simpa using all_eq_true.mp hall _ hslash
  rw [takeWhile_append, if_neg hkey] at hbucket
  unfold cutSlash
  rw [hbucket, String.ofList_toList]

end Keys

/-! ## What is allowed -/

section Allowed

variable {cfg : Config} {s : Snapshot} {u : User} {key bucket : String} {want : PermissionSet}

theorem authorizeBucket_snd (u : User) (bucket : String) (want : PermissionSet) :
    (authorizeBucket (some u) bucket want).2 = u.allowed (.bucket bucket want) := by
  have hheld : permissionsOf (some u) bucket = u.permissions bucket := rfl
  simp only [authorizeBucket, User.allowed, hheld]
  cases u.permissions bucket with
  | none => rfl
  | some held => cases hhas : has held want <;> simp [hhas]

theorem authorizeKey_of_noSlash (h : '/' ∉ key.toList) :
    (authorizeKey (some u) key want).2.2 = u.allowed (.allBuckets want) := by
  have hwild : allBucketsOf (some u) = u.allBuckets := rfl
  simp only [authorizeKey, cutSlash, hwild, User.allowed]
  cases hhas : has u.allBuckets want <;> simp [h]

theorem authorizeKey_of_slash (h : '/' ∈ key.toList) (hne : (cutSlash key).1 ≠ "") :
    (authorizeKey (some u) key want).2.2 = u.allowed (.bucket (cutSlash key).1 want) := by
  have hfound : (cutSlash key).2 = true := by simpa [cutSlash] using h
  rw [← authorizeBucket_snd]
  simp only [authorizeKey, hfound]
  rw [if_neg (by simpa using hne)]

theorem cases_of_mem_users (hu : u ∈ (merge cfg s).users) :
    (cfg.root.complete = true ∧ u = rootUser (declaredNames cfg s)) ∨
      (∃ b ∈ cfg.buckets, ∃ c ∈ b.credentials, u = configUser b.name c.accessKeyID) ∨
      ∃ row, u = mergedUser s.listGrants (declaredNames cfg s) row := by
  rcases mem_append.mp hu with h | h
  · rcases mem_append.mp h with h | h
    · unfold mergeRootUser at h
      split_ifs at h with hroot
      · exact .inl ⟨hroot, mem_singleton.mp h⟩
      · cases h
    · obtain ⟨b, hb, hc⟩ := mem_flatMap.mp h
      obtain ⟨c, hmem, rfl⟩ := mem_map.mp hc
      exact .inr (.inl ⟨b, hb, c, hmem, rfl⟩)
  · obtain ⟨row, -, rfl⟩ := mem_map.mp h
    exact .inr (.inr ⟨row, rfl⟩)

theorem rootGrant_ne_nil (hroot : cfg.root.complete = true) :
    grantsOn (configGrants cfg) rootUserID bucketWildcard ≠ [] :=
  ne_nil_of_mem (mem_filter.mpr
    ⟨mem_append_left _ (by rw [if_pos hroot]; exact mem_singleton_self _), by simp⟩)

theorem credentialGrant_ne_nil {b : BucketConfig} {c : Keypair} (hb : b ∈ cfg.buckets)
    (hc : c ∈ b.credentials) :
    grantsOn (configGrants cfg) (configUserID c.accessKeyID) ⟨.bucket, b.name⟩ ≠ [] :=
  ne_nil_of_mem (mem_filter.mpr
    ⟨mem_append_right _ (mem_flatMap.mpr ⟨b, hb, mem_map.mpr ⟨c, hc, rfl⟩⟩),
      by simp⟩)

theorem effective_of_allowed (hu : u ∈ (merge cfg s).users) (hb : bucket ∈ declaredNames cfg s)
    (h : u.allowed (.bucket bucket want) = true) :
    has (effective (grantsOf cfg s u) u.id bucket) want = true := by
  rcases cases_of_mem_users hu with ⟨hroot, rfl⟩ | ⟨b, hmem, c, hc, rfl⟩ | ⟨row, rfl⟩
  · -- the root user holds everything, by its wildcard or by a grant that names the bucket
    have hall : effective (configGrants cfg) rootUserID bucket = permAll := by
      by_cases hnamed : grantsOn (configGrants cfg) rootUserID ⟨.bucket, bucket⟩ = []
      · rw [effective_of_unnamed hnamed, carried_configGrants (rootGrant_ne_nil hroot)]
      · rw [effective_of_named hnamed, carried_configGrants hnamed]
    change has (effective (configGrants cfg) rootUserID bucket) want = true
    rw [hall]
    simpa [User.allowed, User.permissions, rootUser, hb] using h
  · by_cases hname : bucket = b.name
    · subst hname
      have hnamed := credentialGrant_ne_nil hmem hc
      change has (effective (configGrants cfg) (configUserID c.accessKeyID) b.name) want = true
      rw [effective_of_named hnamed, carried_configGrants hnamed]
      simpa [User.allowed, User.permissions, configUser] using h
    · simp [User.allowed, User.permissions, configUser, hname] at h
  · rw [allowed_mergedUser] at h
    simp only [storedAllow, if_pos hb] at h
    change has (effective s.listGrants row.id bucket) want = true
    by_cases hnamed : grantsOn s.listGrants row.id ⟨.bucket, bucket⟩ = []
    · rw [if_neg (not_not_intro hnamed), Bool.and_eq_true] at h
      rw [effective_of_unnamed hnamed]
      exact h.2
    · rw [if_pos hnamed] at h
      rw [effective_of_named hnamed]
      exact h

theorem allowed_allBuckets (hu : u ∈ (merge cfg s).users) : (u.allowed (.allBuckets want) = true →
      has (carried (grantsOn (grantsOf cfg s u) u.id bucketWildcard)) want = true) ∧
    (u.source = .store →
      has (carried (grantsOn (grantsOf cfg s u) u.id bucketWildcard)) want = true →
        u.allowed (.allBuckets want) = true) := by
  rcases cases_of_mem_users hu with ⟨hroot, rfl⟩ | ⟨b, -, c, -, rfl⟩ | ⟨row, rfl⟩
  · refine ⟨fun h => ?_, nofun⟩
    change has (carried (grantsOn (configGrants cfg) rootUserID bucketWildcard)) want = true
    rw [carried_configGrants (rootGrant_ne_nil hroot)]
    exact h
  · refine ⟨fun h => ?_, nofun⟩
    rw [eq_zero_of_has_zero h]
    exact has_zero _
  · rw [allowed_mergedUser]
    exact ⟨id, fun _ => id⟩

theorem not_narrowed_configGrants (declared : List String) (userID : String) :
    ¬Narrowed declared (configGrants cfg) userID key want := by
  rintro ⟨-, hwild, b, -, -, hnamed, hless⟩
  rw [carried_configGrants hnamed] at hless
  by_cases hne : grantsOn (configGrants cfg) userID bucketWildcard = []
  · rw [hne] at hwild
    rw [eq_zero_of_has_zero hwild, has_zero] at hless
    exact absurd hless (by decide)
  · rw [carried_configGrants hne, hless] at hwild
    exact absurd hwild (by decide)

/-- **What is allowed is granted on every bucket spanned, unless a grant narrows one below the
wildcard that a string without a slash is judged by.** -/
theorem allowed_within_grants_iff
    (hnames : ∀ b ∈ declaredNames cfg s, validBucketName b = true)
    (hu : u ∈ (merge cfg s).users) (key : String) (want : PermissionSet) :
    ((authorizeKey (some u) key want).2.2 = true →
      ∀ b ∈ declaredNames cfg s, Spans key b →
        PermissionSet.has (effective (grantsOf cfg s u) u.id b) want = true) ↔
      ¬Narrowed (declaredNames cfg s) (grantsOf cfg s u) u.id key want := by
  by_cases hslash : '/' ∈ key.toList
  · -- the one bucket spanned is the one asked about
    refine iff_of_true (fun h b hb hspans => ?_) fun h => h.1 hslash
    have hsegment := eq_segment_of_spans hslash (hnames b hb) hspans
    have hne : (cutSlash key).1 ≠ "" := hsegment ▸ (validBucketName_iff.mp (hnames b hb)).1
    rw [authorizeKey_of_slash hslash hne, hsegment] at h
    exact effective_of_allowed hu hb h
  · rw [authorizeKey_of_noSlash hslash]
    constructor
    · intro hwithin hnarrowed
      obtain ⟨-, hwild, b, hb, hle, hnamed, hless⟩ := hnarrowed
      cases hsrc : u.source with
      | config =>
        have hgrants : grantsOf cfg s u = configGrants cfg := by rw [grantsOf, hsrc]
        rw [hgrants] at hwild hnamed hless
        exact not_narrowed_configGrants _ _ ⟨hslash, hwild, b, hb, hle, hnamed, hless⟩
      | store =>
        have hallowed := (allowed_allBuckets hu).2 hsrc hwild
        have hheld := hwithin hallowed b hb ((spans_iff_of_noSlash hslash).mpr hle)
        rw [effective_of_named hnamed, hless] at hheld
        exact absurd hheld (by decide)
    · intro hnarrowed h b hb hspans
      have hwild := (allowed_allBuckets hu).1 h
      by_cases hnamed : grantsOn (grantsOf cfg s u) u.id ⟨.bucket, b⟩ = []
      · rw [effective_of_unnamed hnamed]
        exact hwild
      · rw [effective_of_named hnamed]
        by_contra hless
        exact hnarrowed ⟨hslash, hwild, b, hb, (spans_iff_of_noSlash hslash).mp hspans, hnamed,
          Bool.eq_false_iff.mpr hless⟩

end Allowed

/-! ## A narrowed bucket -/

def permDelete : PermissionSet := 0x10

def storeOnly : Config := ⟨[], ⟨"", ""⟩, []⟩

def narrowedSnapshot : Snapshot where
  buckets := ⟨["logs", "photos"], by decide⟩
  users := ⟨[⟨"u1", "operator"⟩], by decide⟩
  credentials := ⟨[], by decide⟩
  grants := ⟨[⟨"u1", bucketWildcard, permAll⟩, ⟨"u1", ⟨.bucket, "logs"⟩, permRead⟩], by decide⟩

def operator : User := mergedUser narrowedSnapshot.listGrants ["logs", "photos"] ⟨"u1", "operator"⟩

/-- The operator may delete under `photos`, which no grant names. -/
theorem operator_within_grants : operator ∈ (merge storeOnly narrowedSnapshot).users ∧
    ((authorizeKey (some operator) "photos/a" permDelete).2.2 = true →
      ∀ b ∈ declaredNames storeOnly narrowedSnapshot, Spans "photos/a" b →
        PermissionSet.has (effective (grantsOf storeOnly narrowedSnapshot operator) operator.id b)
          permDelete = true) :=
  ⟨mem_singleton.mpr rfl, (allowed_within_grants_iff (by decide) (mem_singleton.mpr rfl) "photos/a"
    permDelete).mpr fun h => absurd h.1 (by decide)⟩

/-- The prefix `lo` may be deleted, and with it what `logs` holds, which the user may only read. -/
theorem narrowed_bucket_reached :
    operator ∈ (merge storeOnly narrowedSnapshot).users ∧
      (authorizeKey (some operator) "lo" permDelete).2.2 = true ∧
      "logs" ∈ declaredNames storeOnly narrowedSnapshot ∧ Spans "lo" "logs" ∧
      PermissionSet.has
        (effective (grantsOf storeOnly narrowedSnapshot operator) operator.id "logs")
        permDelete = false ∧
      (authorizeKey (some operator) "logs/" permDelete).2.2 = false :=
  ⟨mem_singleton.mpr rfl, by decide, by decide, ⟨"", by decide⟩, by decide, by decide⟩

end S3Orchestrator.Provisioning
