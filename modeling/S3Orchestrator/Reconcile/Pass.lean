import S3Orchestrator.Reconcile.Merge
import S3Orchestrator.Ledger.Stripes
import Mathlib.Data.Fintype.Basic

/-!
# A pass among commits

The listing, the ledger pages and the rounds of a pass interleave with uploads that land on the
backend, with deletions of bytes, and with the store's transactions. A row whose bytes landed after
the listing had passed their path looks to the merge like a row without bytes. The delete handler
keeps rows created after the pass began; a commit stamps its time, and a placed copy carries its
source's.

* **`reconcile_spares_live_rows`**.
-/

namespace S3Orchestrator

open RowStore List Option

/-- A pass over a backend. `listed` are the paths the listing returned, and `used` those rows on the
backend have had. -/
structure Recon where
  ledger : Ledger
  bucket : Bucket
  pass : Pass
  listed : List String := []
  used : List String

inductive ReconEvent where
  | land (o : ListedObject)
  | erase (path : String)
  | commit (op : Op)
  | listPage (n : Nat) (last : Bool)
  | ledgerPage
  | advance
  | dispatch (classified : Option (Option StoredForm))

namespace Recon

def pathsOn (s : Ledger) (backend : String) : List String :=
  (s.objectLocations.rows.filter fun l => decide (l.backendName = backend)).map
    ObjectLocation.storageKey

def wantsRows (p : Pass) : Bool :=
  decide (p.todo.head? = some .ledger) && p.db.page.isEmpty && !p.db.exhausted

def step (f : Recon) (ev : TxAdapter × ReconEvent) : Recon :=
  match ev.2 with
  | .land o => { f with bucket := f.bucket.put o }
  | .erase path => { f with bucket := f.bucket.remove path }
  | .commit op =>
    let s := op.apply ev.1 f.ledger
    { f with ledger := s, used := pathsOn s f.pass.backendName ++ f.used }
  | .listPage n last =>
    if f.pass.s3.closed then f
    else
      { f with
        pass := { f.pass with s3 := f.pass.s3.emitPage f.pass.prefixes f.bucket n last }
        listed := f.listed ++
          (nextPage ListedObject.key f.bucket.objects f.pass.s3.position n).map ListedObject.key }
  | .ledgerPage =>
    if wantsRows f.pass then
      { f with pass :=
        { f.pass with db := f.pass.db.fetch f.ledger f.pass.backendName } }
    else f
  | .advance => if f.pass.err = none then { f with pass := f.pass.advance } else f
  | .dispatch classified =>
    if f.pass.err = none then
      let (s, p) := f.pass.dispatch ev.1 classified f.ledger
      { f with ledger := s, pass := p, used := pathsOn s f.pass.backendName ++ f.used }
    else f

def start (s : Ledger) (d : Bucket) (backendName : String) (buckets : List String)
    (listedAt : Time) : Recon where
  ledger := s
  bucket := d
  pass := { backendName, prefixes := bucketPrefixes buckets, listedAt }
  used := pathsOn s backendName

def cutoff (f : Recon) : Time := f.pass.listedAt - ledgerClockGrace

def passed (f : Recon) (path : String) : Prop :=
  f.pass.s3.closed = true ∨ ∃ p ∈ f.pass.s3.position, path ≤ p
  deriving Decidable

def Grounded (f : Recon) (backend path : String) : Prop :=
  backend = f.pass.backendName → f.bucket.holds path ∧ path ∉ f.used
  deriving Decidable

/-- What the parties promise: bytes land where no row points, they are there before a row names
them, every write has a path of its own, and the database's clock is behind by less than the
grace. The pass alone imports. -/
def Lawful (f : Recon) (ev : TxAdapter × ReconEvent) : Prop :=
  match ev.2 with
  | .land o => ∀ l ∈ f.ledger.objectLocations.rows, l.backendName = f.pass.backendName →
      l.storageKey ≠ o.key
  | .commit op => f.cutoff < ev.1.now ∧
      match op with
      | .recordObject req => ∀ c ∈ req.copies,
          f.Grounded c.backend (storagePath req.key c.storageKey)
      | .commitCompanionCopy p | .promotePending p =>
        f.Grounded p.backendName (storagePath p.objectKey p.storageKey)
      | .placeCopy pl => f.Grounded pl.intent.backendName pl.intent.storageKey
      | .importObject _ => False
      | _ => True
  | _ => True

/-- A placement onto the backend counts as fresh for the delete handler, or the listing has not come
to its path, or listed it. -/
def PlacementsSeen (f : Recon) : ReconEvent → Prop
  | .commit (.placeCopy pl) => pl.intent.backendName = f.pass.backendName →
      ∀ src ∈ f.ledger.objectLocations.rows, src.objectKey = pl.source.objectKey →
        src.backendName = pl.source.backendName → src.storageKey = pl.source.storageKey →
        f.cutoff < src.createdAt ∨ ¬ f.passed pl.intent.storageKey ∨
          pl.intent.storageKey ∈ f.listed
  | _ => True

/-- A round of the pass removes rows of its backend only, and none whose bytes are there. -/
def Spares (f : Recon) (ev : TxAdapter × ReconEvent) : Prop :=
  match ev.2 with
  | .dispatch _ => ∀ l ∈ f.ledger.objectLocations.rows,
      l ∉ (f.step ev).ledger.objectLocations.rows →
        l.backendName = f.pass.backendName ∧ ¬ f.bucket.holds l.storageKey
  | _ => True

instance (f : Recon) : DecidablePred f.Lawful := by
  rintro ⟨_, _ | _ | ⟨⟨⟩⟩ | _⟩ <;> dsimp only [Lawful] <;> infer_instance

instance (f : Recon) : DecidablePred f.PlacementsSeen := by
  rintro (_ | _ | ⟨⟨⟩⟩ | _) <;> dsimp only [PlacementsSeen] <;> infer_instance

instance (f : Recon) : DecidablePred f.Spares := by
  rintro ⟨_, ⟨⟩⟩ <;> dsimp only [Spares] <;> infer_instance

end Recon

/-! ## What the merge knows -/

def Pass.behind (p : Pass) (k : String) : Prop :=
  ∀ d ∈ p.dbCur, k ≤ d.key ∧ (.ledger ∉ p.todo → k < d.key)

def Pass.upcoming (p : Pass) : List Entry := p.s3Cur.toList ++ p.s3.ch

/-- The listed paths are upcoming, or the merge is done with them. -/
structure Ordered (p : Pass) (listed : List String) : Prop where
  order : p.todo = [] ∨ p.todo = [.backend] ∨ p.todo = [.ledger] ∨ p.todo = [.backend, .ledger]
  sorted : p.upcoming.Pairwise fun a b => a.key < b.key
  emitted : ∀ e ∈ p.upcoming, e.key ∈ listed
  below : ∀ k ∈ listed, ∃ q ∈ p.s3.position, k ≤ q
  split : ∀ k ∈ listed, (∃ e ∈ p.upcoming, e.key = k) ∨ p.behind k
  handled : .backend ∈ p.todo → ∀ e ∈ p.s3Cur, p.behind e.key
  ended : p.s3Cur = none → .backend ∉ p.todo → p.s3.closed = true ∧ p.s3.ch = []
  begun : p.dbCur = none → .ledger ∈ p.todo →
    (.backend ∈ p.todo → p.s3Cur = none) ∧ ∀ k ∈ listed, ∃ e ∈ p.upcoming, e.key = k

namespace Ordered

variable {p : Pass} {listed : List String}

theorem right_absent (h : Ordered p listed) (htodo : p.todo = []) (hbranch : p.branch = .right)
    {d : Entry} (hd : p.dbCur = some d) :
    d.key ∉ listed ∧ (p.s3.closed = true ∨ ∃ q ∈ p.s3.position, d.key ≤ q) := by
  rw [Pass.branch, hd] at hbranch
  have hnobackend : Side.backend ∉ p.todo := by
    rw [htodo]
    exact not_mem_nil
  obtain ⟨hbehind, hcur, hahead⟩ := turn_right_absent p.behind
    (fun k => ∃ e ∈ p.s3.ch, e.key = k) hbranch
    (fun a ha => (ha d hd).2 (by rw [htodo]; exact not_mem_nil)) (by
      rintro k ⟨e, he, rfl⟩
      cases hc : p.s3Cur with
      | none => rw [(h.ended hc hnobackend).2] at he; exact by cases he
      | some c =>
        have hsorted := h.sorted
        rw [Pass.upcoming, hc] at hsorted
        exact ⟨c.key, rfl, (pairwise_cons.mp hsorted).1 e he⟩)
  constructor
  · intro hlisted
    rcases h.split _ hlisted with ⟨e, he, hkey⟩ | hb
    · rcases mem_append.mp he with he | he
      · refine hcur ?_
        rw [mem_toList.mp he, map_some, hkey]
        rfl
      · exact hahead ⟨e, he, hkey⟩
    · exact hbehind hb
  · cases hc : p.s3Cur with
    | none => exact .inl (h.ended hc hnobackend).1
    | some c =>
      obtain ⟨_, hbd, hlt⟩ := turn_right hbranch
      obtain rfl := some.inj hbd
      obtain ⟨q, hq, hle⟩ := h.below c.key (h.emitted c (by simp [Pass.upcoming, hc]))
      exact .inr ⟨q, hq, (hlt c.key (by rw [hc]; rfl)).le.trans hle⟩

theorem start (p : Pass) (htodo : p.todo = [.backend, .ledger]) (hs3 : p.s3 = {})
    (hcur : p.s3Cur = none) : Ordered p [] := by
  have hup : p.upcoming = [] := by rw [Pass.upcoming, hs3, hcur]; rfl
  refine ⟨by simp [htodo], by simp [hup], by simp [hup], by simp, by simp, by simp [hcur], ?_, ?_⟩
  · intro _ hnot
    rw [htodo] at hnot
    exact absurd mem_cons_self hnot
  · exact fun _ _ => ⟨fun _ => hcur, by simp⟩

section

variable (h : Ordered p listed)
include h

theorem emit (d : Bucket) (n : Nat) (last : Bool) (hopen : p.s3.closed = false) :
    Ordered { p with s3 := p.s3.emitPage p.prefixes d n last }
      (listed ++ (nextPage ListedObject.key d.objects p.s3.position n).map ListedObject.key) := by
  generalize hpage : nextPage ListedObject.key d.objects p.s3.position n = page
  have hup : ({ p with s3 := p.s3.emitPage p.prefixes d n last } : Pass).upcoming =
      p.upcoming ++ page.map (listedEntry p.prefixes) := by
    simp [Pass.upcoming, S3KeyStream.emitPage, hpage]
  have hasc : page.Pairwise fun a b => a.key < b.key := hpage ▸ nextPage_pairwise d.ascending
  have habove : ∀ o ∈ page, Above p.s3.position o.key := fun o ho =>
    (mem_of_nextPage (hpage ▸ ho)).2
  have hposition : (p.s3.emitPage p.prefixes d n last).position =
      pageEnd ListedObject.key p.s3.position page := by simp [S3KeyStream.emitPage, hpage]
  refine ⟨h.order, ?_, ?_, ?_, ?_, h.handled, fun hcur hnot => ?_, fun hdb hled => ⟨?_, ?_⟩⟩
  · rw [hup]
    refine pairwise_append.mpr ⟨h.sorted, ?_, fun a ha b hb => ?_⟩
    · exact pairwise_map.mpr hasc
    · obtain ⟨o, ho, rfl⟩ := mem_map.mp hb
      obtain ⟨q, hq, hle⟩ := h.below a.key (h.emitted a ha)
      exact lt_of_le_of_lt hle (habove o ho q hq)
  · rw [hup]
    intro e he
    rcases mem_append.mp he with he | he
    · exact mem_append_left _ (h.emitted e he)
    · obtain ⟨o, ho, rfl⟩ := mem_map.mp he
      exact mem_append_right _ (mem_map_of_mem ho)
  · intro k hk
    change ∃ q ∈ (p.s3.emitPage p.prefixes d n last).position, k ≤ q
    rw [hposition]
    rcases mem_append.mp hk with hk | hk
    · obtain ⟨q, hq, hle⟩ := h.below k hk
      obtain ⟨q', hq', hle'⟩ := pos_le_pageEnd habove hq
      exact ⟨q', hq', hle.trans hle'⟩
    · obtain ⟨o, ho, rfl⟩ := mem_map.mp hk
      exact le_pageEnd hasc ho
  · intro k hk
    rw [hup]
    rcases mem_append.mp hk with hk | hk
    · exact (h.split k hk).imp_left fun ⟨e, he, hkey⟩ => ⟨e, mem_append_left _ he, hkey⟩
    · obtain ⟨o, ho, rfl⟩ := mem_map.mp hk
      exact .inl ⟨_, mem_append_right _ (mem_map_of_mem ho), rfl⟩
  · -- A stream that has ended lists no further page.
    rw [(h.ended hcur hnot).1] at hopen
    cases hopen
  · exact (h.begun hdb hled).1
  · intro k hk
    rw [hup]
    rcases mem_append.mp hk with hk | hk
    · obtain ⟨e, he, hkey⟩ := (h.begun hdb hled).2 k hk
      exact ⟨e, mem_append_left _ he, hkey⟩
    · obtain ⟨o, ho, rfl⟩ := mem_map.mp hk
      exact ⟨_, mem_append_right _ (mem_map_of_mem ho), rfl⟩

theorem advance_backend {rest : List Side} (htodo : p.todo = .backend :: rest) {next : Option Entry}
    {s3 : S3KeyStream} (hnext : p.s3.next = some (next, s3)) :
    Ordered { p with s3 := s3, s3Cur := next, todo := rest } listed := by
  have hback : Side.backend ∈ p.todo := htodo ▸ mem_cons_self
  have hrest : Side.backend ∉ rest ∧ (rest = [] ∨ rest = [.ledger]) := by
    rcases h.order with ho | ho | ho | ho <;> rw [htodo] at ho <;> cases ho <;> decide
  have hled : Side.ledger ∈ rest ↔ Side.ledger ∈ p.todo := by simp [htodo]
  have hbehind : ∀ k, p.behind k →
      ({ p with s3 := s3, s3Cur := next, todo := rest } : Pass).behind k :=
    fun k hk d hd => ⟨(hk d hd).1, fun hnot => (hk d hd).2 (mt hled.mpr hnot)⟩
  -- What is left upcoming is what was, without the entry the cursor held.
  have hup : p.s3.ch = ({ p with s3 := s3, s3Cur := next, todo := rest } : Pass).upcoming := by
    rcases S3KeyStream.next_cases hnext with ⟨a, rfl, hch, _⟩ | ⟨rfl, hch, _, rfl⟩
    · exact hch
    · rw [Pass.upcoming, hch]
      rfl
  have hsub : ∀ e ∈ p.s3.ch, e ∈ p.upcoming := fun e he => mem_append_right _ he
  have hpos : s3.position = p.s3.position := by
    rcases S3KeyStream.next_cases hnext with ⟨_, _, _, hpos, _⟩ | ⟨_, _, _, rfl⟩
    · exact hpos
    · rfl
  refine ⟨hrest.2.imp_right fun hr => .inr (.inl hr), ?_, ?_, ?_, fun k hk => ?_,
    fun hb => absurd hb hrest.1, fun hcur _ => ?_,
    fun hdb hl => ⟨fun hb => absurd hb hrest.1, fun k hk => ?_⟩⟩
  · rw [← hup]
    exact (pairwise_append.mp h.sorted).2.1
  · rw [← hup]
    exact fun e he => h.emitted e (hsub e he)
  · change ∀ k ∈ listed, ∃ q ∈ s3.position, k ≤ q
    rw [hpos]
    exact h.below
  · rw [← hup]
    rcases h.split k hk with ⟨e, he, rfl⟩ | hk
    · rcases mem_append.mp he with he | he
      · exact .inr (hbehind _ (h.handled hback e (mem_toList.mp he)))
      · exact .inl ⟨e, he, rfl⟩
    · exact .inr (hbehind k hk)
  · rcases S3KeyStream.next_cases hnext with ⟨a, rfl, _⟩ | ⟨_, hch, hclosed, rfl⟩
    · cases hcur
    · exact ⟨hclosed, hch⟩
  · obtain ⟨hnone, hall⟩ := h.begun hdb (hled.mp hl)
    obtain ⟨e, he, hkey⟩ := hall k hk
    rw [Pass.upcoming, hnone hback] at he
    rw [← hup]
    exact ⟨e, he, hkey⟩

theorem advance_ledger {rest : List Side} (htodo : p.todo = .ledger :: rest) {next : Option Entry}
    {db : DBCursorStream} (hlt : ∀ c ∈ p.dbCur, ∀ n ∈ next, c.key < n.key) :
    Ordered { p with db := db, dbCur := next, todo := rest } listed := by
  have hled : Side.ledger ∈ p.todo := htodo ▸ mem_cons_self
  have hrest : rest = [] := by
    rcases h.order with ho | ho | ho | ho <;> rw [htodo] at ho <;> cases ho
    rfl
  subst hrest
  have hnoback : Side.backend ∉ p.todo := by simp [htodo]
  refine ⟨.inl rfl, h.sorted, h.emitted, h.below, fun k hk => ?_,
    fun hb => absurd hb not_mem_nil, fun hcur _ => h.ended hcur hnoback,
    fun _ hl => by cases hl⟩
  cases hdb : p.dbCur with
  | none => exact .inl ((h.begun hdb hled).2 k hk)
  | some c =>
    refine (h.split k hk).imp_right fun hb d hd => ?_
    have hkd : k < d.key := lt_of_le_of_lt (hb c hdb).1 (hlt c hdb d hd)
    exact ⟨hkd.le, fun _ => hkd⟩

theorem dispatch (tx : TxAdapter) (classified : Option (Option StoredForm)) (s : Ledger) :
    Ordered (p.dispatch tx classified s).2 listed := by
  rcases p.dispatch_cases tx classified s with hsame | ⟨htodo, ⟨e, hcur, hbranch, hdo⟩ |
    ⟨e, hcur, hbranch, hdo⟩ | ⟨hbranch, hdo⟩⟩
  · rw [hsame]
    exact h
  all_goals
    have hstrict : ∀ k, p.behind k → ∀ d ∈ p.dbCur, k < d.key := fun k hk d hd =>
      (hk d hd).2 (by rw [htodo]; exact not_mem_nil)
    rw [hdo]
  · -- The listed path is below the row the ledger cursor holds.
    obtain ⟨_, hkey, hbelow⟩ := turn_left hbranch
    rw [hcur] at hkey
    obtain rfl := some.inj hkey
    have hlow : ∀ d ∈ p.dbCur, e.key < d.key := fun d hd =>
      hbelow d.key (mem_map_of_mem Entry.key hd)
    refine ⟨.inr (.inl rfl), h.sorted, h.emitted, h.below, fun k hk => ?_,
      fun _ a ha d hd => ?_, fun _ hnot => absurd mem_cons_self hnot,
      fun _ hl => absurd hl (by simp)⟩
    · exact (h.split k hk).imp_right fun hb d hd => ⟨(hb d hd).1, fun _ => hstrict k hb d hd⟩
    · rw [mem_def, hcur] at ha
      cases ha
      exact ⟨(hlow d hd).le, fun _ => hlow d hd⟩
  · refine ⟨.inr (.inr (.inl rfl)), h.sorted, h.emitted, h.below, fun k hk => ?_,
      fun hb => absurd hb (by simp), fun hnone _ => h.ended hnone (by simp [htodo]),
      fun hdb => ?_⟩
    · exact (h.split k hk).imp_right fun hb d hd => ⟨(hb d hd).1, fun _ => hstrict k hb d hd⟩
    · rw [show p.dbCur = none from hdb] at hcur
      cases hcur
  · obtain ⟨k0, hl, hr⟩ := turn_both hbranch
    obtain ⟨a, ha, rfl⟩ := map_eq_some_iff.mp hl
    obtain ⟨b, hb, hba⟩ := map_eq_some_iff.mp hr
    refine ⟨.inr (.inr (.inr rfl)), h.sorted, h.emitted, h.below, fun k hk => ?_,
      fun _ c hc d hd => ?_, fun _ hnot => absurd mem_cons_self hnot, fun hdb => ?_⟩
    · exact (h.split k hk).imp_right fun hb d hd => ⟨(hb d hd).1, fun _ => hstrict k hb d hd⟩
    · rw [mem_def, ha] at hc
      rw [mem_def, hb] at hd
      cases hc
      cases hd
      exact ⟨hba.ge, fun hnot => absurd (mem_cons_of_mem _ mem_cons_self) hnot⟩
    · rw [show p.dbCur = none from hdb] at hb
      cases hb

end

end Ordered

/-! ## Why a row with bytes stays -/

namespace Recon

def Sheltered (f : Recon) (l : ObjectLocation) : Prop :=
  f.cutoff < l.createdAt ∨ ¬ f.passed l.storageKey ∨ l.storageKey ∈ f.listed

/-- What a pass and the ledger know of each other. -/
structure Sound (f : Recon) : Prop where
  ordered : Ordered f.pass f.listed
  sheltered : ∀ l ∈ f.ledger.objectLocations.rows, l.backendName = f.pass.backendName →
    f.bucket.holds l.storageKey → f.Sheltered l
  used : ∀ l ∈ f.ledger.objectLocations.rows, l.backendName = f.pass.backendName →
    l.storageKey ∈ f.used
  read : ∀ e ∈ f.pass.dbCur.toList ++ f.pass.db.page, e.key ∈ f.used ∧
    ∀ l ∈ f.ledger.objectLocations.rows, l.backendName = f.pass.backendName →
      l.storageKey = e.key → l.createdAt = e.lastModified ∨ e.key ∈ f.listed

section Steps

variable {f : Recon} {tx : TxAdapter}

theorem mem_pathsOn {s : Ledger} {backend : String} {l : ObjectLocation}
    (hl : l ∈ s.objectLocations.rows) (hb : l.backendName = backend) :
    l.storageKey ∈ pathsOn s backend :=
  mem_map_of_mem (mem_filter.mpr ⟨hl, decide_eq_true hb⟩)

theorem commit_recorded {op : Op} {e : Effect} (hlaw : f.Lawful (tx, .commit op))
    (hseen : f.PlacementsSeen (.commit op)) (ho : Outcome tx f.ledger op e) {l : ObjectLocation}
    (hl : l ∈ e.recorded) (hb : l.backendName = f.pass.backendName) :
    l.storageKey ∉ f.used ∧ f.Sheltered l := by
  obtain ⟨hclock, hlaw⟩ := hlaw
  cases op with
  | recordObject req =>
    cases ho with
    | recorded =>
      obtain ⟨c, hc, rfl⟩ := mem_map.mp hl
      exact ⟨(hlaw c hc hb).2, .inl hclock⟩
    | nothing | overtaken => cases hl
  | commitCompanionCopy p =>
    cases ho with
    | joined =>
      obtain rfl := mem_singleton.mp hl
      exact ⟨(hlaw hb).2, .inl hclock⟩
    | nothing | untrusted => cases hl
  | promotePending p =>
    cases ho with
    | promoted =>
      obtain rfl := mem_singleton.mp hl
      exact ⟨(hlaw hb).2, .inl hclock⟩
    | nothing | companionKept | companionDiscarded | superseded => cases hl
  | placeCopy pl =>
    cases ho with
    | placed hheld hsrc hkey hback hpath =>
      rename_i src
      obtain rfl := mem_singleton.mp hl
      obtain ⟨hpb, hpp⟩ := placedCopy_address pl src
      have hb : pl.intent.backendName = f.pass.backendName := hpb.symm.trans hb
      have hpp : (tx.locationRow (pl.placedCopy src)).storageKey = pl.intent.storageKey := hpp
      unfold Sheltered
      rw [hpp]
      refine ⟨(hlaw hb).2, ?_⟩
      rcases hseen hb src hsrc hkey hback hpath with hfresh | hrest
      · -- The placed row carries its source's time.
        have htime : (tx.locationRow (pl.placedCopy src)).createdAt = src.createdAt := by
          rw [← placedCopy_createdAt pl src]
          refine if_neg ?_
          rw [placedCopy_createdAt]
          exact Nat.ne_of_gt (Nat.lt_of_le_of_lt (Nat.zero_le _) hfresh)
        exact .inl (htime ▸ hfresh)
      · exact .inr hrest
    | nothing | placementLost | placementRefused => cases hl
  | importObject req => exact hlaw.elim
  | _ => cases ho <;> exact by cases hl

theorem Sound.commit (hf : f.Sound) {op : Op} (hlaw : f.Lawful (tx, .commit op))
    (hseen : f.PlacementsSeen (.commit op)) : (f.step (tx, .commit op)).Sound := by
  obtain ⟨e, ho, happ⟩ := apply_outcome tx f.ledger op
  refine ⟨hf.ordered, fun l hl hb hbytes => ?_, fun l hl hb => ?_, fun a ha => ⟨?_, ?_⟩⟩
  · rcases happ.mem_locations.mp hl with ⟨hl, _⟩ | hl
    · exact hf.sheltered l hl hb hbytes
    · exact (commit_recorded hlaw hseen ho hl hb).2
  · exact mem_append_left _ (mem_pathsOn hl hb)
  · exact mem_append_right _ (hf.read a ha).1
  · intro l hl hb hkey
    rcases happ.mem_locations.mp hl with ⟨hl, _⟩ | hl
    · exact (hf.read a ha).2 l hl hb hkey
    · exact absurd (hkey ▸ (hf.read a ha).1) (commit_recorded hlaw hseen ho hl hb).1

theorem Sound.listPage (hf : f.Sound) (n : Nat) (last : Bool) :
    (f.step (tx, .listPage n last)).Sound := by
  by_cases hclosed : f.pass.s3.closed = true
  · simpa only [step, hclosed, if_true] using hf
  have hstep : f.step (tx, .listPage n last) = { f with
      pass := { f.pass with s3 := f.pass.s3.emitPage f.pass.prefixes f.bucket n last }
      listed := f.listed ++ (nextPage ListedObject.key f.bucket.objects f.pass.s3.position n).map
        ListedObject.key } := if_neg hclosed
  rw [hstep]
  refine ⟨hf.ordered.emit f.bucket n last (Bool.eq_false_iff.mpr hclosed),
    fun l hl hb hbytes => ?_, hf.used, fun a ha => ⟨(hf.read a ha).1, fun l hl hb hkey => ?_⟩⟩
  · by_cases hpassed : f.passed l.storageKey
    · rcases hf.sheltered l hl hb hbytes with hfresh | hnot | hlisted
      · exact .inl hfresh
      · exact absurd hpassed hnot
      · exact .inr (.inr (mem_append_left _ hlisted))
    · right
      obtain ⟨o, ho, hokey⟩ := hbytes
      have habove : Above f.pass.s3.position o.key := fun q hq =>
        not_le.mp fun hle => hpassed (.inr ⟨q, hq, hokey ▸ hle⟩)
      by_contra hcon
      obtain ⟨hnow, hnotlisted⟩ := not_or.mp hcon
      refine hnotlisted (mem_append_right _ (hokey ▸ mem_map_of_mem ?_))
      rcases not_not.mp hnow with hend | ⟨q, hq, hle⟩
      · obtain ⟨_, hlen⟩ := Bool.and_eq_true_iff.mp hend
        exact mem_nextPage_of_length ho habove (of_decide_eq_true hlen)
      · exact mem_nextPage_of_le f.bucket.ascending ho habove ⟨q, hq, hokey ▸ hle⟩
  · exact ((hf.read a ha).2 l hl hb hkey).imp_right (mem_append_left _)

theorem Sound.ledgerPage (hf : f.Sound) : (f.step (tx, .ledgerPage)).Sound := by
  by_cases hwants : wantsRows f.pass = true
  · have hstep : f.step (tx, .ledgerPage) = { f with pass :=
        { f.pass with db := f.pass.db.fetch f.ledger f.pass.backendName } } := if_pos hwants
    rw [hstep]
    refine ⟨⟨hf.ordered.order, hf.ordered.sorted, hf.ordered.emitted, hf.ordered.below,
      hf.ordered.split, hf.ordered.handled, hf.ordered.ended, hf.ordered.begun⟩, hf.sheltered,
      hf.used, fun a ha => ?_⟩
    rcases mem_append.mp ha with ha | ha
    · exact hf.read a (mem_append_left _ ha)
    · -- A row read now is the only one at its path.
      obtain ⟨r, hr, rfl⟩ := mem_map.mp ha
      obtain ⟨hr, _⟩ := mem_of_nextPage hr
      obtain ⟨hr, hrb⟩ := mem_filter.mp ((mem_insertionSort _).mp hr)
      have hrb : r.backendName = f.pass.backendName := of_decide_eq_true hrb
      refine ⟨hf.used r hr hrb, fun l hl hb hkey => .inl ?_⟩
      rw [path_unique hl hr (hb.trans hrb.symm) hkey]
      rfl
  · rw [show f.step (tx, .ledgerPage) = f from if_neg hwants]
    exact hf

theorem Sound.advance (hf : f.Sound) : (f.step (tx, .advance)).Sound := by
  by_cases herr : f.pass.err = none
  · have hstep : f.step (tx, .advance) = { f with pass := f.pass.advance } := if_pos herr
    rw [hstep]
    rcases f.pass.advance_cases with hsame | ⟨e, hadv⟩ | ⟨rest, next, s3, htodo, hnext, hadv⟩ |
      ⟨rest, next, db, htodo, hnext, hlt, hadv⟩
    · rw [hsame]
      exact hf
    · rw [hadv]
      exact ⟨⟨hf.ordered.order, hf.ordered.sorted, hf.ordered.emitted, hf.ordered.below,
        hf.ordered.split, hf.ordered.handled, hf.ordered.ended, hf.ordered.begun⟩, hf.sheltered,
        hf.used, hf.read⟩
    · rw [hadv]
      refine ⟨hf.ordered.advance_backend htodo hnext, fun l hl hb hbytes => ?_, hf.used, hf.read⟩
      have hpos : ∀ path, ({ f with pass := { f.pass with
          s3 := s3, s3Cur := next, todo := rest } } : Recon).passed path ↔ f.passed path := by
        intro path
        rcases S3KeyStream.next_cases hnext with ⟨_, _, _, hpos, hclosed⟩ | ⟨_, _, _, rfl⟩
        · simp only [passed, hpos, hclosed]
        · rfl
      exact (hf.sheltered l hl hb hbytes).imp_right (Or.imp_left fun h => mt (hpos _).mp h)
    · rw [hadv]
      refine ⟨hf.ordered.advance_ledger htodo hlt, hf.sheltered, hf.used, fun a ha => ?_⟩
      exact hf.read a (mem_append_right _ (DBCursorStream.next_mem hnext a ha))
  · rw [show f.step (tx, .advance) = f from if_neg herr]
    exact hf

theorem step_dispatch (herr : f.pass.err = none) (classified : Option (Option StoredForm)) :
    f.step (tx, .dispatch classified) = { f with
      ledger := (f.pass.dispatch tx classified f.ledger).1
      pass := (f.pass.dispatch tx classified f.ledger).2
      used := pathsOn (f.pass.dispatch tx classified f.ledger).1 f.pass.backendName ++ f.used } :=
  if_pos herr

theorem Sound.dispatch_rows (hf : f.Sound) (tx : TxAdapter)
    (classified : Option (Option StoredForm)) :
    (∀ l, l ∈ (f.pass.dispatch tx classified f.ledger).1.objectLocations.rows ↔
        l ∈ f.ledger.objectLocations.rows) ∨
    (∃ a, a.storageKey ∈ f.listed ∧
      ∀ l, l ∈ (f.pass.dispatch tx classified f.ledger).1.objectLocations.rows ↔
        l ∈ f.ledger.objectLocations.rows ∨ l = a) ∨
    ∃ a ∈ f.ledger.objectLocations.rows, a.backendName = f.pass.backendName ∧
      ¬ f.bucket.holds a.storageKey ∧
      ∀ l, l ∈ (f.pass.dispatch tx classified f.ledger).1.objectLocations.rows ↔
        l ∈ f.ledger.objectLocations.rows ∧ l ≠ a := by
  rcases f.pass.dispatch_cases tx classified f.ledger with hsame | ⟨htodo, ⟨e, hcur, hbranch, hdo⟩ |
    ⟨e, hcur, hbranch, hdo⟩ | ⟨hbranch, hdo⟩⟩
  · rw [hsame]
    exact .inl fun l => Iff.rfl
  · rw [hdo]
    rcases importHandler_ledger tx f.pass.backendName classified e f.ledger f.pass.result with
      hsame | ⟨form, happ⟩
    · exact .inl fun l => by rw [hsame]
    · let row := tx.locationRow ((e.importRequest f.pass.backendName form).location tx.now)
      refine .inr (.inl ⟨row, ?_, fun l => ?_⟩)
      · have hkey : storagePath e.key e.key = e.key := by
          unfold storagePath
          split_ifs <;> rfl
        change storagePath e.key e.key ∈ f.listed
        rw [hkey]
        exact hf.ordered.emitted e (mem_append_left _ (mem_toList.mpr hcur))
      · rw [happ.mem_locations]
        simp [Effect.importing, row]
  · rw [hdo]
    rcases deleteHandler_ledger tx f.pass.backendName f.pass.listedAt e f.ledger f.pass.result with
      hsame | ⟨hold, a, ha, hab, hpath, hrows⟩
    · exact .inl fun l => by rw [hsame]
    · refine .inr (.inr ⟨a, ha, hab, fun hbytes => ?_, hrows⟩)
      -- The listing passed the row without its bytes, so the row would have to be fresh.
      obtain ⟨hnotlisted, hpassed⟩ := hf.ordered.right_absent htodo hbranch hcur
      have hmem : e ∈ f.pass.dbCur.toList ++ f.pass.db.page :=
        mem_append_left _ (mem_toList.mpr hcur)
      have htime := ((hf.read e hmem).2 a ha hab hpath).resolve_right hnotlisted
      rcases hf.sheltered a ha hab hbytes with hfresh | hnot | hlisted
      · rw [htime] at hfresh
        exact absurd hold (not_le.mpr hfresh)
      · exact hnot (hpath ▸ hpassed)
      · exact hnotlisted (hpath ▸ hlisted)
  · rw [hdo]
    exact .inl fun l => Iff.rfl

theorem dispatch_frame (tx : TxAdapter) (classified : Option (Option StoredForm)) (s : Ledger)
    (p : Pass) : (p.dispatch tx classified s).2.backendName = p.backendName ∧
      (p.dispatch tx classified s).2.listedAt = p.listedAt ∧
      (p.dispatch tx classified s).2.s3 = p.s3 ∧ (p.dispatch tx classified s).2.db = p.db ∧
      (p.dispatch tx classified s).2.dbCur = p.dbCur := by
  rcases p.dispatch_cases tx classified s with h | ⟨_, ⟨_, _, _, h⟩ | ⟨_, _, _, h⟩ | ⟨_, h⟩⟩ <;>
    rw [h] <;> exact ⟨rfl, rfl, rfl, rfl, rfl⟩

theorem Sound.dispatch (hf : f.Sound) (classified : Option (Option StoredForm)) :
    (f.step (tx, .dispatch classified)).Sound := by
  by_cases herr : f.pass.err = none
  · rw [step_dispatch herr]
    obtain ⟨hback, hat, hs3, hdb, hcur⟩ := dispatch_frame tx classified f.ledger f.pass
    -- A row after the round was there before, or is at a listed path.
    have hrows : ∀ l ∈ (f.pass.dispatch tx classified f.ledger).1.objectLocations.rows,
        l ∈ f.ledger.objectLocations.rows ∨ l.storageKey ∈ f.listed := by
      intro l hl
      rcases hf.dispatch_rows tx classified with h | ⟨a, hlisted, h⟩ | ⟨a, _, _, _, h⟩
      · exact .inl ((h l).mp hl)
      · rcases (h l).mp hl with hl | rfl
        · exact .inl hl
        · exact .inr hlisted
      · exact .inl ((h l).mp hl).1
    refine ⟨hf.ordered.dispatch tx classified f.ledger, fun l hl hb hbytes => ?_, fun l hl hb => ?_,
      fun a ha => ⟨?_, fun l hl hb hkey => ?_⟩⟩
    · simp only [Sheltered, cutoff, passed, hat, hs3]
      rcases hrows l hl with hl | hlisted
      · exact hf.sheltered l hl (hb.trans hback) hbytes
      · exact .inr (.inr hlisted)
    · exact mem_append_left _ (mem_pathsOn hl (hb.trans hback))
    · rw [hcur, hdb] at ha
      exact mem_append_right _ (hf.read a ha).1
    · rw [hcur, hdb] at ha
      rcases hrows l hl with hl | hlisted
      · exact (hf.read a ha).2 l hl (hb.trans hback) hkey
      · exact .inr (hkey ▸ hlisted)
  · rw [show f.step (tx, .dispatch classified) = f from if_neg herr]
    exact hf

theorem Sound.step (hf : f.Sound) {ev : TxAdapter × ReconEvent} (hlaw : f.Lawful ev)
    (hseen : f.PlacementsSeen ev.2) : (f.step ev).Sound := by
  obtain ⟨tx, ev⟩ := ev
  cases ev with
  | land o =>
    refine ⟨hf.ordered, fun l hl hb hbytes => ?_, hf.used, hf.read⟩
    rcases Bucket.holds_put hbytes with hkey | hbytes
    · exact absurd hkey (hlaw l hl hb)
    · exact hf.sheltered l hl hb hbytes
  | erase path =>
    exact ⟨hf.ordered, fun l hl hb hbytes =>
      hf.sheltered l hl hb (Bucket.holds_remove hbytes), hf.used, hf.read⟩
  | commit op => exact hf.commit hlaw hseen
  | listPage n last => exact hf.listPage n last
  | ledgerPage => exact hf.ledgerPage
  | advance => exact hf.advance
  | dispatch classified => exact hf.dispatch classified

theorem sound_start (s : Ledger) (d : Bucket) (backendName : String) (buckets : List String)
    (listedAt : Time) : (start s d backendName buckets listedAt).Sound where
  ordered := Ordered.start _ rfl rfl rfl
  sheltered l _ _ _ := by
    refine .inr (.inl ?_)
    rintro (h | ⟨q, hq, _⟩)
    · cases h
    · cases hq
  used _ hl hb := mem_pathsOn hl hb
  read _ ha := by cases ha

theorem Sound.spares (hf : f.Sound) (ev : TxAdapter × ReconEvent) : f.Spares ev := by
  obtain ⟨tx, ev⟩ := ev
  cases ev with
  | dispatch classified =>
    intro l hl hgone
    by_cases herr : f.pass.err = none
    · rw [step_dispatch herr] at hgone
      rcases hf.dispatch_rows tx classified with h | ⟨a, _, h⟩ | ⟨a, _, hb, hbytes, h⟩
      · exact absurd ((h l).mpr hl) hgone
      · exact absurd ((h l).mpr (.inl hl)) hgone
      · by_cases heq : l = a
        · exact heq ▸ ⟨hb, hbytes⟩
        · exact absurd ((h l).mpr ⟨hl, heq⟩) hgone
    · rw [show f.step (tx, .dispatch classified) = f from if_neg herr] at hgone
      exact absurd hl hgone
  | _ => trivial

end Steps

end Recon

/-- **A pass deletes no row whose bytes are on the backend**, if it sees the placements committed
onto it. -/
theorem reconcile_spares_live_rows (s : Ledger) (d : Bucket) (backendName : String)
    (buckets : List String) (listedAt : Time) (run : List (TxAdapter × ReconEvent))
    (hrun : Along Recon.step (fun f ev => f.Lawful ev ∧ f.PlacementsSeen ev.2)
      (Recon.start s d backendName buckets listedAt) run) :
    Along Recon.step Recon.Spares (Recon.start s d backendName buckets listedAt) run := by
  refine hrun.of_invariant (Recon.sound_start s d backendName buckets listedAt) ?_ ?_
  · exact fun f _ hf h => hf.step h.1 h.2
  · exact fun f ev hf _ => hf.spares ev

def oldCopy : Ledger :=
  { Ledger.provisioned duoQuota with
    objectLocations :=
      ⟨[{ objectKey := "k", backendName := "c", storageKey := "k!i", createdAt := 1 }], by decide⟩
    pendingObjects :=
      ⟨[{ intentID := "j", objectKey := "k", storageKey := "k!j", backendName := "b" }],
        by decide⟩ }

def oldPlacement : Placement where
  source := { objectKey := "k", backendName := "c", storageKey := "k!i" }
  intent := { intentID := "j", objectKey := "k", storageKey := "k!j", backendName := "b" }

def latePass : Recon := Recon.start oldCopy ⟨[], List.Pairwise.nil⟩ "b" [] 1000

/-- The listing ends; then the bytes land and the placement commits; then the pass reads the row. -/
def placedAfterListing : List (TxAdapter × ReconEvent) :=
  [({ now := 1000 }, .listPage 1000 true),
   ({ now := 1001 }, .land { key := "k!j" }),
   ({ now := 1002 }, .commit (.placeCopy oldPlacement)),
   ({ now := 1003 }, .advance),
   ({ now := 1004 }, .ledgerPage),
   ({ now := 1004 }, .advance),
   ({ now := 1005 }, .dispatch none)]

/-- The pass deletes the row of the copy just placed, with its bytes on the backend. -/
theorem placed_row_deleted :
    Along Recon.step Recon.Lawful latePass placedAfterListing ∧
      (after Recon.step latePass placedAfterListing).bucket.holds "k!j" ∧
      (after Recon.step latePass (placedAfterListing.take 6)).ledger.objectLocations.rows.map
        (fun l => (l.backendName, l.storageKey)) = [("c", "k!i"), ("b", "k!j")] ∧
      (after Recon.step latePass placedAfterListing).ledger.objectLocations.rows.map
        (fun l => (l.backendName, l.storageKey)) = [("c", "k!i")] ∧
      ¬ Along Recon.step Recon.Spares latePass placedAfterListing := by
  decide

def placedBeforeListing : List (TxAdapter × ReconEvent) :=
  [({ now := 1000 }, .land { key := "k!j" }),
   ({ now := 1001 }, .listPage 1000 true),
   ({ now := 1002 }, .commit (.placeCopy oldPlacement)),
   ({ now := 1003 }, .advance),
   ({ now := 1004 }, .ledgerPage),
   ({ now := 1004 }, .advance),
   ({ now := 1005 }, .dispatch none)]

theorem placedBeforeListing_spared :
    (after Recon.step latePass placedBeforeListing).ledger.objectLocations.rows.length = 2 ∧
      Along Recon.step Recon.Spares latePass placedBeforeListing :=
  ⟨by decide, reconcile_spares_live_rows oldCopy ⟨[], List.Pairwise.nil⟩ "b" [] 1000
    placedBeforeListing (by decide)⟩

end S3Orchestrator
