import S3Orchestrator.Auth.SigV4

/-!
# The address a client is limited by

Behind proxies the peer of a connection is the last proxy, and the client's address is read from
`X-Forwarded-For`: the rightmost address of the list that is no trusted proxy's. A proxy appends the
address it was called from, to the last line of the header or as a line of its own, so that what the
client wrote stands to the left.

* **`client_address_iff`**.
-/

namespace S3Orchestrator.ClientIP

open List

/-- What reads addresses: `net.SplitHostPort` (the host), `net.ParseIP`, and the trusted networks as
what they contain. -/
structure Net (IP : Type) where
  splitHostPort : Bytes → Option Bytes
  parseIP : Bytes → Option IP
  trusted : List (IP → Bool)

structure Request where
  remoteAddr : Bytes
  /-- The lines of `X-Forwarded-For`. -/
  forwardedFor : List Bytes

variable {IP : Type} (n : Net IP)

def stripPort (addr : Bytes) : Bytes := (n.splitHostPort addr).getD addr

def ipInNets (ip : Bytes) : Bool := (n.parseIP ip).any fun a => n.trusted.any fun net => net a

def found (xff : Bytes) : Option Bytes :=
  ((xff.splitOn comma).map trimSpace).reverse.find? fun ip => decide (ip ≠ []) && !ipInNets n ip

def rightmostUntrusted (xff : Bytes) : Bytes :=
  (found n xff).getD (trimSpace ((xff.splitOn comma).headD []))

def extractClientIP (r : Request) : Bytes :=
  let peerIP := stripPort n r.remoteAddr
  let xff := r.forwardedFor.headD []
  if xff ≠ [] ∧ n.trusted ≠ [] ∧ ipInNets n peerIP then rightmostUntrusted n xff else peerIP

/-! ## Proxies -/

inductive Mode where
  | lastLine
  | ownLine

/-- No comma, and no white space around it. -/
def IsAddress (a : Bytes) : Prop := a ≠ [] ∧ comma ∉ a ∧ trimSpace a = a

/-- A trusted proxy. -/
structure Proxy where
  addr : Bytes
  mode : Mode
  address : IsAddress addr
  trusted : ipInNets n addr = true

def Mode.add : Mode → Bytes → List Bytes → List Bytes
  | .lastLine, a, [] => [a]
  | .lastLine, a, [l] => [l ++ comma :: space :: a]
  | .lastLine, a, l :: l' :: lines => l :: Mode.lastLine.add a (l' :: lines)
  | .ownLine, a, lines => lines ++ [a]

variable {n}

def forwarded (peer : Bytes) (lines : List Bytes) : List (Proxy n) → List Bytes
  | [] => lines
  | p :: chain => forwarded p.addr (p.mode.add peer lines) chain

def lastPeer (peer : Bytes) (chain : List (Proxy n)) : Bytes :=
  chain.foldl (fun _ p => p.addr) peer

/-! ## What a line yields -/

variable {a line : Bytes}

theorem trimSpace_blank (s : Bytes) : trimSpace (space :: s) = trimSpace s := by
  have hfront : trimFront whiteSpace (space :: s).length (space :: s) =
      trimFront whiteSpace s.length s := rfl
  rw [trimSpace, hfront, ← trimSpace]

section

variable (h : IsAddress a)
include h

theorem found_address (hun : ipInNets n a = false) : found n a = some a := by
  simp [found, splitOn_eq_singleton h.2.1, h.2.2, h.1, hun]

theorem splitOn_add (line : Bytes) : ((line ++ comma :: space :: a).splitOn comma).map trimSpace =
      (line.splitOn comma).map trimSpace ++ [a] := by
  have hsep : comma ∉ space :: a :=
    fun hc => (mem_cons.mp hc).elim (by decide) h.2.1
  have hsplit : (line ++ comma :: space :: a).splitOn comma =
      line.splitOn comma ++ (space :: a).splitOn comma := splitOnP_append_cons line _ (by decide)
  rw [hsplit, splitOn_eq_singleton hsep, map_append, map_singleton, trimSpace_blank,
    h.2.2]

theorem found_add_untrusted (hun : ipInNets n a = false) (line : Bytes) :
    found n (line ++ comma :: space :: a) = some a := by
  simp [found, splitOn_add h, h.1, hun]

theorem found_add_trusted (htr : ipInNets n a = true) (line : Bytes) :
    found n (line ++ comma :: space :: a) = found n line := by
  simp [found, splitOn_add h, htr]

end

theorem rightmostUntrusted_of_found (h : found n line = some a) :
    rightmostUntrusted n line = a := by
  rw [rightmostUntrusted, h, Option.getD_some]

theorem ne_nil_of_found (h : found n line = some a) : line ≠ [] := by
  rintro rfl
  simp [found, trimSpace, trimFront] at h

/-! ## What the first line becomes -/

theorem found_forwarded {peer : Bytes} (hpeer : IsAddress peer) (htr : ipInNets n peer = true)
    (chain : List (Proxy n)) (line : Bytes) (lines : List Bytes) :
    ∃ line' lines', forwarded peer (line :: lines) chain = line' :: lines' ∧
      found n line' = found n line := by
  induction chain generalizing peer line lines with
  | nil => exact ⟨line, lines, rfl, rfl⟩
  | cons p chain ih =>
    obtain ⟨first, rest, hadd, hfound⟩ : ∃ first rest,
        p.mode.add peer (line :: lines) = first :: rest ∧ found n first = found n line := by
      cases p.mode with
      | ownLine => exact ⟨line, lines ++ [peer], rfl, rfl⟩
      | lastLine =>
        cases lines with
        | nil => exact ⟨_, [], rfl, found_add_trusted hpeer htr line⟩
        | cons l lines => exact ⟨line, _, rfl, rfl⟩
    obtain ⟨line', lines', heq, hline⟩ := ih p.address p.trusted first rest
    exact ⟨line', lines', by rw [forwarded, hadd, heq], hline.trans hfound⟩

theorem head_forwarded (peer : Bytes) (chain : List (Proxy n)) (line l : Bytes)
    (lines : List Bytes) :
    ∃ lines', forwarded peer (line :: l :: lines) chain = line :: lines' := by
  induction chain generalizing peer l lines with
  | nil => exact ⟨l :: lines, rfl⟩
  | cons p chain ih =>
    obtain ⟨l', lines', hadd⟩ : ∃ l' lines',
        p.mode.add peer (line :: l :: lines) = line :: l' :: lines' := by
      cases p.mode with
      | ownLine => exact ⟨l, lines ++ [peer], rfl⟩
      | lastLine => cases lines <;> exact ⟨_, _, rfl⟩
    rw [forwarded, hadd]
    exact ih p.addr l' lines'

theorem lastPeer_trusted {peer : Bytes} (htr : ipInNets n peer = true) (chain : List (Proxy n)) :
    ipInNets n (lastPeer peer chain) = true := by
  induction chain generalizing peer with
  | nil => exact htr
  | cons p chain ih => exact ih p.trusted

theorem nets_ne_nil (htr : ipInNets n a = true) : n.trusted ≠ [] := by
  intro h
  cases hparse : n.parseIP a <;> simp [ipInNets, h] at htr

variable {client remoteAddr : Bytes}

theorem extractClientIP_forwarded {p : Proxy n} {chain : List (Proxy n)}
    (hremote : stripPort n remoteAddr = lastPeer p.addr chain) (h : found n line = some client)
    (lines : List Bytes) :
    extractClientIP n ⟨remoteAddr, forwarded p.addr (line :: lines) chain⟩ = client := by
  obtain ⟨line', lines', heq, hline⟩ := found_forwarded p.address p.trusted chain line lines
  have hfound := hline.trans h
  have hpeer : ipInNets n (stripPort n remoteAddr) = true :=
    hremote ▸ lastPeer_trusted p.trusted chain
  rw [heq]
  exact (if_pos ⟨ne_nil_of_found hfound, nets_ne_nil hpeer, hpeer⟩).trans
    (rightmostUntrusted_of_found hfound)

theorem extractClientIP_hidden (lines : List Bytes) :
    extractClientIP n ⟨remoteAddr, [] :: lines⟩ = stripPort n remoteAddr := by
  simp [extractClientIP]

/-- **The client's lines cannot change its address** just if it calls directly, sends no line, or
sends one the first proxy adds to. -/
theorem client_address_iff (hclient : IsAddress client) (hun : ipInNets n client = false)
    (chain : List (Proxy n)) (hremote : stripPort n remoteAddr = lastPeer client chain) (k : Nat) :
    (∀ lines : List Bytes, lines.length = k →
      extractClientIP n ⟨remoteAddr, forwarded client lines chain⟩ = client) ↔
    chain = [] ∨ k = 0 ∨ (k = 1 ∧ ∀ p ∈ chain.head?, p.mode = .lastLine) := by
  cases chain with
  | nil =>
    have hpeer : stripPort n remoteAddr = client := hremote
    refine iff_of_true (fun lines _ => ?_) (.inl rfl)
    exact (if_neg fun h => by simp [hpeer, hun] at h).trans hpeer
  | cons p chain =>
    have hne : stripPort n remoteAddr ≠ client := by
      intro heq
      have htr := lastPeer_trusted p.trusted chain
      rw [← heq, hremote] at hun
      exact Bool.noConfusion (htr.symm.trans hun)
    have hhidden {lines lines' : List Bytes} (hlen : lines.length = k)
        (hhead : forwarded client lines (p :: chain) = [] :: lines') : ¬ ∀ lines : List Bytes,
        lines.length = k →
          extractClientIP n ⟨remoteAddr, forwarded client lines (p :: chain)⟩ = client := by
      intro h
      have haddr := h lines hlen
      rw [hhead, extractClientIP_hidden] at haddr
      exact hne haddr
    obtain _ | _ | k := k
    · refine iff_of_true (fun lines hlen => ?_) (.inr (.inl rfl))
      obtain rfl := eq_nil_of_length_eq_zero hlen
      rw [forwarded]
      cases p.mode <;> exact extractClientIP_forwarded hremote (found_address hclient hun) []
    · cases hmode : p.mode with
      | lastLine =>
        refine iff_of_true (fun lines hlen => ?_) (by simp [hmode])
        obtain ⟨line, rfl⟩ := length_eq_one_iff.mp hlen
        rw [forwarded, hmode]
        exact extractClientIP_forwarded hremote (found_add_untrusted hclient hun line) []
      | ownLine =>
        obtain ⟨lines', hhead⟩ := head_forwarded p.addr chain [] client []
        have hown : forwarded client [[]] (p :: chain) = [] :: lines' := by
          rw [forwarded, hmode]
          exact hhead
        exact iff_of_false (hhidden rfl hown) (by simp [hmode])
    · obtain ⟨lines', hhead⟩ := head_forwarded client (p :: chain) [] [] (replicate k [])
      exact iff_of_false (hhidden (by simp) hhead) (by simp)

def oneNet : Net Bytes := ⟨fun _ => none, some, [fun a => decide (a = [0x70])]⟩

def proxyAt (mode : Mode) : Proxy oneNet := ⟨[0x70], mode, by simp [IsAddress]; decide, rfl⟩

theorem one_line_cannot_change : ipInNets oneNet [0x63] = false ∧ ∀ lines : List Bytes,
    lines.length = 1 →
      extractClientIP oneNet ⟨[0x70], forwarded [0x63] lines [proxyAt .lastLine]⟩ = [0x63] :=
  ⟨rfl, (client_address_iff (n := oneNet) (by simp [IsAddress]; decide) rfl [proxyAt .lastLine] rfl
    1).mpr (by simp [proxyAt])⟩

/-- A proxy that adds a line of its own leaves the address to the client. -/
theorem own_line_changes : ipInNets oneNet [0x63] = false ∧
    extractClientIP oneNet ⟨[0x70], forwarded [0x63] [[0x78]] [proxyAt .ownLine]⟩ = [0x78] :=
  ⟨rfl, rfl⟩

end S3Orchestrator.ClientIP
