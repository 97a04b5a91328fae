/-
Overlay routing (`crates/server/src/overlay_routing.rs`): which neighbours a node forwards to, and the depth-first
forwarding of its tests (`Overlay::route`): candidates in order, nodes of a failed branch stay visited, the hop limit
counts down.

`next_hop` reads the neighbour list, the visited and the failing sets; the libp2p peer-id parser is a parameter. The
overlay is a finite graph over nodes of one network that differ in their canonical URL. The order in which a node lists
its neighbours and its failing set may differ from call to call (`Views`).

Results:
- `nextHop_perm`: the decision does not depend on the order of the neighbour list.
- `mem_candidates`: the candidates are the target if it is a neighbour, else all unvisited neighbours.
- `route_eq_search`: the forwarding is the depth-first search of `DepthFirst`.
- `overlay_routing_delivers`: no node is entered twice, and with a limit of the number of nodes every target of a
  connected overlay is reached.
-/
import Mathlib.Tactic
import Mathlib.Combinatorics.SimpleGraph.Connectivity.Connected
import Mathlib.Combinatorics.SimpleGraph.Hasse
import Mathlib.Data.List.Sort
import Mathlib.Data.Prod.Lex
import Mathlib.Order.Lex
import Avalon.Core.Bytes
import Avalon.Core.Sha256
import Avalon.Core.DepthFirst

namespace Avalon.OverlayRouting

/-! ## Canonical URLs -/

/-- the characters `str::trim` removes: Unicode White_Space -/
def isWhitespace (c : Char) : Bool :=
  let n := c.toNat
  (0x09 ≤ n && n ≤ 0x0d) || n == 0x20 || n == 0x85 || n == 0xa0 || n == 0x1680 || (0x2000 ≤ n && n ≤ 0x200a) ||
    n == 0x2028 || n == 0x2029 || n == 0x202f || n == 0x205f || n == 0x3000

def trimEndMatches (p : Char → Bool) (cs : List Char) : List Char := (cs.reverse.dropWhile p).reverse

def trim (cs : List Char) : List Char := trimEndMatches isWhitespace (cs.dropWhile isWhitespace)

/-- the scheme is lowercase only -/
def isP2pUrl (cs : List Char) : Bool :=
  match cs.dropPrefix? "p2p".toList with
  | some rest => "://".toList.isPrefixOf rest
  | none => false

/-- the form used for identity, the visited set and the key fallback; peer ids keep their case -/
def canonicalBaseUrl (url : String) : String :=
  let cs := trimEndMatches (· == '/') (trim url.toList)
  if isP2pUrl cs then String.ofList cs else String.ofList (cs.map Char.toLower)

/-! ## The next hop -/

structure OverlayNode where
  baseUrl : String
  networkId : String
  libp2pPeerId : Option String
deriving DecidableEq, Repr

namespace OverlayNode

def url (node : OverlayNode) : String := canonicalBaseUrl node.baseUrl

/-- the hash of the peer id's bytes, where the node has one that parses -/
def peerIdKey (parsePeerId : String → Option Bytes) (node : OverlayNode) : Option (FixedBytes 32) := do
  let text ← node.libp2pPeerId
  let id ← parsePeerId text
  return Sha256.hash id

def urlKey (node : OverlayNode) : FixedBytes 32 := Sha256.hash (utf8 node.url)

end OverlayNode

inductive NoRouteReason where
  | targetIsSelf
  | foreignNetwork
  | noNeighbors
  | allVisited
deriving DecidableEq, Repr

inductive NextHop where
  | direct (target : OverlayNode) (fallbacks : List OverlayNode)
  | forward (candidates : List OverlayNode)
  | noRoute (reason : NoRouteReason)
deriving DecidableEq, Repr

def xor (a b : FixedBytes 32) : FixedBytes 32 := List.Vector.map₂ (· ^^^ ·) a b

/-- byte strings as compared: the first difference decides -/
def bytesKey (bs : Bytes) : List ℕ := bs.map UInt8.toNat

/-- not closer, failing, distance, URL -/
abbrev Rank := Bool ×ₗ Bool ×ₗ List ℕ ×ₗ List ℕ

/-- one key space for all nodes of a decision -/
def nodeKey (parsePeerId : String → Option Bytes) (usePeerIds : Bool) (node : OverlayNode) : FixedBytes 32 :=
  if usePeerIds then (node.peerIdKey parsePeerId).getD node.urlKey else node.urlKey

def rank (key : OverlayNode → FixedBytes 32) (me target : OverlayNode) (failing : Finset String) (node : OverlayNode) :
    Rank :=
  let d := bytesKey (xor (key node) (key target)).toList
  let myDistance := bytesKey (xor (key me) (key target)).toList
  toLex (decide (d ≥ myDistance), toLex (decide (node.url ∈ failing), toLex (d, bytesKey (utf8 node.url))))

/-- peer-id keys only when this node, the target and every neighbour have one -/
def usePeerIds (parsePeerId : String → Option Bytes) (me target : OverlayNode) (neighbors : List OverlayNode) : Bool :=
  (me.peerIdKey parsePeerId).isSome && (target.peerIdKey parsePeerId).isSome &&
    neighbors.all fun n => (n.peerIdKey parsePeerId).isSome

/-- the unvisited neighbours other than the target, by rank -/
def ordered (parsePeerId : String → Option Bytes) (me target : OverlayNode) (neighbors : List OverlayNode)
    (visited failing : Finset String) : List OverlayNode :=
  let rankOf := rank (nodeKey parsePeerId (usePeerIds parsePeerId me target neighbors)) me target failing
  (neighbors.filter fun n => n.url ≠ target.url && n.url ∉ visited).insertionSort fun a b => rankOf a ≤ rankOf b

/-- the active neighbours on this node's network, itself left out -/
def networkNeighbors (me : OverlayNode) (activeNeighbors : List OverlayNode) : List OverlayNode :=
  activeNeighbors.filter fun n => n.networkId = me.networkId && n.url ≠ me.url

def nextHop (parsePeerId : String → Option Bytes) (me target : OverlayNode) (activeNeighbors : List OverlayNode)
    (visited failing : Finset String) : NextHop :=
  if target.url = me.url then .noRoute .targetIsSelf
  else if target.networkId ≠ me.networkId then .noRoute .foreignNetwork
  else
    let neighbors := networkNeighbors me activeNeighbors
    if neighbors.isEmpty then .noRoute .noNeighbors
    else
      match neighbors.find? fun n => n.url = target.url with
      | some found => .direct found (ordered parsePeerId me target neighbors visited failing)
      | none =>
        if (ordered parsePeerId me target neighbors visited failing).isEmpty then .noRoute .allVisited
        else .forward (ordered parsePeerId me target neighbors visited failing)

/-! ## The order of the neighbour list -/

theorem bytesKey_inj {a b : Bytes} (h : bytesKey a = bytesKey b) : a = b :=
  List.map_injective_iff.2 (fun _ _ h => UInt8.toNat_inj.1 h) h

/-- nodes of one rank have one URL -/
theorem url_of_rank {key : OverlayNode → FixedBytes 32} {me target a b : OverlayNode} {failing : Finset String}
    (h : rank key me target failing a = rank key me target failing b) : a.url = b.url := by
  simp only [rank, toLex_inj, Prod.mk.injEq] at h
  obtain ⟨-, -, -, hurl⟩ := h
  exact utf8_inj (bytesKey_inj hurl)

theorem find?_perm {α : Type} {p : α → Bool} {l l' : List α} (h : l.Perm l')
    (hu : ∀ a ∈ l, ∀ b ∈ l, p a = true → p b = true → a = b) : l.find? p = l'.find? p := by
  cases hf : l.find? p with
  | none =>
    symm
    rw [List.find?_eq_none] at hf ⊢
    exact fun a ha => hf a (h.mem_iff.2 ha)
  | some a =>
    have ha := List.mem_of_find?_eq_some hf
    have hpa := List.find?_some hf
    cases hf' : l'.find? p with
    | none => exact absurd hpa (List.find?_eq_none.1 hf' a (h.mem_iff.1 ha))
    | some b =>
      have hb := h.mem_iff.2 (List.mem_of_find?_eq_some hf')
      rw [hu a ha b hb hpa (List.find?_some hf')]

theorem insertionSort_perm {α β : Type} [LinearOrder β] (f : α → β) {l l' : List α} (h : l.Perm l')
    (hu : ∀ a ∈ l, ∀ b ∈ l, f a = f b → a = b) :
    l.insertionSort (fun a b => f a ≤ f b) = l'.insertionSort (fun a b => f a ≤ f b) := by
  have htotal : Std.Total fun a b : α => f a ≤ f b := ⟨fun a b => le_total (f a) (f b)⟩
  have htrans : IsTrans α fun a b => f a ≤ f b := ⟨fun _ _ _ => le_trans⟩
  have hperm := (List.perm_insertionSort (fun a b => f a ≤ f b) l).trans
    (h.trans (List.perm_insertionSort (fun a b => f a ≤ f b) l').symm)
  refine List.Perm.eq_of_pairwise ?_ (List.pairwise_insertionSort _ l) (List.pairwise_insertionSort _ l') hperm
  intro a b ha hb hab hba
  rw [List.mem_insertionSort] at ha hb
  exact hu a ha b (h.mem_iff.2 hb) (le_antisymm hab hba)

theorem ordered_perm (parsePeerId : String → Option Bytes) (me target : OverlayNode) {ns ns' : List OverlayNode}
    (visited failing : Finset String) (h : ns.Perm ns') (hu : ∀ a ∈ ns, ∀ b ∈ ns, a.url = b.url → a = b) :
    ordered parsePeerId me target ns visited failing = ordered parsePeerId me target ns' visited failing := by
  have hkeys : usePeerIds parsePeerId me target ns = usePeerIds parsePeerId me target ns' := by
    simp only [usePeerIds, h.all_eq]
  simp only [ordered, hkeys]
  apply insertionSort_perm _ (h.filter _)
  intro a ha b hb he
  exact hu a (List.mem_of_mem_filter ha) b (List.mem_of_mem_filter hb) (url_of_rank he)

/-- **The order of the list does not matter**, as long as a URL names one node -/
theorem nextHop_perm (parsePeerId : String → Option Bytes) (me target : OverlayNode) {ns ns' : List OverlayNode}
    (visited failing : Finset String) (h : ns.Perm ns') (hu : ∀ a ∈ ns, ∀ b ∈ ns, a.url = b.url → a = b) :
    nextHop parsePeerId me target ns visited failing = nextHop parsePeerId me target ns' visited failing := by
  have hperm : (networkNeighbors me ns).Perm (networkNeighbors me ns') := h.filter _
  have hun : ∀ a ∈ networkNeighbors me ns, ∀ b ∈ networkNeighbors me ns, a.url = b.url → a = b :=
    fun a ha b hb => hu a (List.mem_of_mem_filter ha) b (List.mem_of_mem_filter hb)
  have hfind := find?_perm (p := fun n => n.url = target.url) hperm fun a ha b hb hpa hpb =>
    hun a ha b hb ((of_decide_eq_true hpa).trans (of_decide_eq_true hpb).symm)
  simp only [nextHop, hperm.isEmpty_eq, hfind, ordered_perm parsePeerId me target visited failing hperm hun]

/-! ## Candidates -/

/-- the nodes a decision tries, in order -/
def NextHop.candidates : NextHop → List OverlayNode
  | .direct target _ => [target]
  | .forward candidates => candidates
  | .noRoute _ => []

theorem mem_ordered {parsePeerId : String → Option Bytes} {me target w : OverlayNode} {ns : List OverlayNode}
    {visited failing : Finset String} :
    w ∈ ordered parsePeerId me target ns visited failing ↔ w ∈ ns ∧ w.url ≠ target.url ∧ w.url ∉ visited := by
  simp only [ordered, List.mem_insertionSort, List.mem_filter, Bool.and_eq_true, decide_eq_true_eq]

/-- **What is tried.** On one network and away from the target: the target alone when it is a neighbour, else every
neighbour whose URL is not visited. -/
theorem mem_candidates (parsePeerId : String → Option Bytes) (me target : OverlayNode) (ns : List OverlayNode)
    (visited failing : Finset String) (hself : target.url ≠ me.url) (hnet : target.networkId = me.networkId)
    (hns : ∀ n ∈ ns, n.networkId = me.networkId ∧ n.url ≠ me.url) (hu : ∀ n ∈ ns, n.url = target.url → n = target)
    (w : OverlayNode) :
    w ∈ (nextHop parsePeerId me target ns visited failing).candidates ↔
      w ∈ ns ∧ if target ∈ ns then w = target else w.url ∉ visited := by
  have hnetwork : networkNeighbors me ns = ns := by
    apply List.filter_eq_self.2
    intro n hn
    simp [hns n hn]
  simp only [nextHop, if_neg hself, hnet, ne_eq, not_true_eq_false, if_false, hnetwork]
  by_cases hempty : ns = []
  · simp [NextHop.candidates, hempty]
  rw [if_neg (mt List.isEmpty_iff.1 hempty)]
  by_cases hmem : target ∈ ns
  · rw [if_pos hmem]
    cases hfind : ns.find? fun n => n.url = target.url with
    | none =>
      rw [List.find?_eq_none] at hfind
      exact absurd (decide_eq_true rfl) (hfind target hmem)
    | some t =>
      have hurl := List.find?_some hfind
      obtain rfl := hu t (List.mem_of_find?_eq_some hfind) (of_decide_eq_true hurl)
      simp only [NextHop.candidates, List.mem_singleton]
      exact ⟨fun h => ⟨h ▸ hmem, h⟩, fun h => h.2⟩
  · rw [if_neg hmem]
    have hno : ∀ n ∈ ns, n.url ≠ target.url := fun n hn he => hmem (hu n hn he ▸ hn)
    have hfind : ns.find? (fun n => n.url = target.url) = none := by
      rw [List.find?_eq_none]
      exact fun n hn h => hno n hn (of_decide_eq_true h)
    have hordered : w ∈ ordered parsePeerId me target ns visited failing ↔ w ∈ ns ∧ w.url ∉ visited := by
      rw [mem_ordered]
      exact and_congr_right fun hw => and_iff_right (hno w hw)
    rw [hfind, ← hordered]
    dsimp only
    split_ifs with he
    · simp [NextHop.candidates, List.isEmpty_iff.1 he]
    · rfl

/-! ## Forwarding -/

/-- nodes of one network with links between them; a URL names one node -/
structure Overlay where
  size : ℕ
  node : Fin size → OverlayNode
  links : SimpleGraph (Fin size)
  networkId : String
  sameNetwork : ∀ i, (node i).networkId = networkId
  distinct : ∀ i j, (node i).url = (node j).url → i = j

namespace Overlay

variable (o : Overlay)

def url (i : Fin o.size) : String := (o.node i).url

/-- the position of a node in the node list -/
def position (c : OverlayNode) : Option (Fin o.size) := (List.finRange o.size).find? fun i => o.node i = c

/-- what each node knows when it decides, after any history of entered nodes: its neighbours in some order, and a set of
failing URLs -/
structure Views where
  neighbors : Fin o.size → List (Fin o.size) → List (Fin o.size)
  failing : Fin o.size → List (Fin o.size) → Finset String
  lists : ∀ i history j, j ∈ neighbors i history ↔ o.links.Adj i j

/-- the nodes entered in order, and the visited URLs the message carries -/
structure Trail where
  entered : List (Fin o.size)
  visited : Finset String

variable {o}

/-- tries the candidates in order; dead and visited ones are passed over -/
def tryCandidates (dead : Finset (Fin o.size)) (enter : Fin o.size → o.Trail → Bool × o.Trail) :
    List OverlayNode → o.Trail → Bool × o.Trail
  | [], s => (false, s)
  | c :: cs, s =>
    match o.position c with
    | none => tryCandidates dead enter cs s
    | some i =>
      if i ∈ dead ∨ c.url ∈ s.visited then tryCandidates dead enter cs s
      else
        match enter i s with
        | (true, s') => (true, s')
        | (false, s') => tryCandidates dead enter cs s'

/-- the decision at a node -/
def hopAt (parsePeerId : String → Option Bytes) (views : o.Views) (dst cur : Fin o.size) (s : o.Trail) : NextHop :=
  nextHop parsePeerId (o.node cur) (o.node dst) ((views.neighbors cur s.entered).map o.node) s.visited
    (views.failing cur s.entered)

/-- depth-first forwarding as the trace forwarder runs it -/
def route (parsePeerId : String → Option Bytes) (views : o.Views) (dead : Finset (Fin o.size)) (dst : Fin o.size) :
    ℕ → Fin o.size → o.Trail → Bool × o.Trail
  | 0, cur, s => (decide (cur = dst), ⟨s.entered ++ [cur], insert (o.url cur) s.visited⟩)
  | ttl + 1, cur, s =>
    let s : o.Trail := ⟨s.entered ++ [cur], insert (o.url cur) s.visited⟩
    if cur = dst then (true, s)
    else tryCandidates dead (route parsePeerId views dead dst ttl) (hopAt parsePeerId views dst cur s).candidates s

/-! ## Forwarding is a depth-first search -/

theorem node_inj {i j : Fin o.size} (h : o.node i = o.node j) : i = j := o.distinct i j (congrArg OverlayNode.url h)

theorem position_node (i : Fin o.size) : o.position (o.node i) = some i := by
  cases hf : o.position (o.node i) with
  | none => exact absurd (decide_eq_true rfl) (List.find?_eq_none.1 hf i (List.mem_finRange i))
  | some j =>
    have hj := List.find?_some hf
    rw [node_inj (of_decide_eq_true hj)]

/-- the trail that entered the given nodes -/
def trail (entered : List (Fin o.size)) : o.Trail := ⟨entered, (entered.map o.url).toFinset⟩

@[simp] theorem trail_entered (entered : List (Fin o.size)) : (trail entered).entered = entered := rfl

theorem trail_concat (entered : List (Fin o.size)) (cur : Fin o.size) :
    (⟨entered ++ [cur], insert (o.url cur) (trail entered).visited⟩ : o.Trail) = trail (entered ++ [cur]) := by
  rw [trail, trail]
  congr 1
  ext u
  simp

theorem mem_trail_visited {entered : List (Fin o.size)} {i : Fin o.size} :
    o.url i ∈ (trail entered).visited ↔ i ∈ entered := by
  rw [trail, List.mem_toFinset, List.mem_map]
  constructor
  · rintro ⟨j, hj, he⟩
    rwa [← o.distinct j i he]
  · exact fun h => ⟨i, h, rfl⟩

/-- the live candidates of a node, as positions -/
def choose (parsePeerId : String → Option Bytes) (views : o.Views) (dead : Finset (Fin o.size)) (dst cur : Fin o.size)
    (entered : List (Fin o.size)) : List (Fin o.size) :=
  ((hopAt parsePeerId views dst cur (trail entered)).candidates.filterMap o.position).filter fun i => i ∉ dead

theorem tryCandidates_eq (dead : Finset (Fin o.size)) {enter : Fin o.size → o.Trail → Bool × o.Trail}
    {enter' : Fin o.size → List (Fin o.size) → Bool × List (Fin o.size)}
    (henter : ∀ i e, enter i (trail e) = ((enter' i e).1, trail (enter' i e).2)) :
    ∀ (cs : List OverlayNode) (e : List (Fin o.size)), tryCandidates dead enter cs (trail e) =
      ((DepthFirst.tryEach enter' ((cs.filterMap o.position).filter fun i => i ∉ dead) e).1,
        trail (DepthFirst.tryEach enter' ((cs.filterMap o.position).filter fun i => i ∉ dead) e).2)
  | [], _ => rfl
  | c :: cs, e => by
    have ih := tryCandidates_eq dead henter cs
    rw [tryCandidates]
    cases hpos : o.position c with
    | none =>
      rw [List.filterMap_cons_none hpos]
      exact ih e
    | some i =>
      rw [List.filterMap_cons_some hpos]
      have hnode : o.node i = c := by
        have hi := List.find?_some hpos
        exact of_decide_eq_true hi
      by_cases hdead : i ∈ dead
      · dsimp only
        rw [if_pos (Or.inl hdead), List.filter_cons_of_neg (by simpa using hdead)]
        exact ih e
      · rw [List.filter_cons_of_pos (by simpa using hdead), DepthFirst.tryEach]
        dsimp only
        by_cases hmem : i ∈ e
        · have hvisited : c.url ∈ (trail e).visited := by
            rw [← hnode]
            exact mem_trail_visited.2 hmem
          rw [if_pos (Or.inr hvisited), if_pos hmem]
          exact ih e
        · have hvisited : c.url ∉ (trail e).visited := by
            rw [← hnode]
            exact mt mem_trail_visited.1 hmem
          rw [if_neg (not_or.2 ⟨hdead, hvisited⟩), if_neg hmem, henter]
          generalize enter' i e = r
          obtain ⟨_ | _, e'⟩ := r
          · exact ih e'
          · rfl

/-- **Forwarding is the search** of the candidates that are live -/
theorem route_eq_search (parsePeerId : String → Option Bytes) (views : o.Views) (dead : Finset (Fin o.size))
    (dst : Fin o.size) : ∀ (ttl : ℕ) (cur : Fin o.size) (e : List (Fin o.size)),
    route parsePeerId views dead dst ttl cur (trail e) =
      ((DepthFirst.search (choose parsePeerId views dead dst) dst ttl cur e).1,
        trail (DepthFirst.search (choose parsePeerId views dead dst) dst ttl cur e).2)
  | 0, cur, e => by
    rw [route, DepthFirst.search]
    exact congrArg _ (trail_concat e cur)
  | ttl + 1, cur, e => by
    have hstep : (⟨(trail e).entered ++ [cur], insert (o.url cur) (trail e).visited⟩ : o.Trail) = trail (e ++ [cur]) :=
      trail_concat e cur
    rw [route, DepthFirst.search]
    simp only [hstep]
    split_ifs
    · rfl
    · exact tryCandidates_eq dead (route_eq_search parsePeerId views dead dst ttl) _ _

/-- the live candidates: the target alone when it is a neighbour, else the neighbours not entered yet -/
theorem mem_choose {parsePeerId : String → Option Bytes} {views : o.Views} {dead : Finset (Fin o.size)}
    {dst cur : Fin o.size} (hcur : cur ≠ dst) (e : List (Fin o.size)) (i : Fin o.size) :
    i ∈ choose parsePeerId views dead dst cur e ↔
      i ∉ dead ∧ o.links.Adj cur i ∧ (o.links.Adj cur dst → i = dst) ∧ (¬ o.links.Adj cur dst → i ∉ e) := by
  have hlisted : ∀ j, o.node j ∈ (views.neighbors cur e).map o.node ↔ o.links.Adj cur j := by
    intro j
    rw [List.mem_map, ← views.lists cur e j]
    exact ⟨fun ⟨k, hk, he⟩ => node_inj he ▸ hk, fun h => ⟨j, h, rfl⟩⟩
  have hcand := mem_candidates parsePeerId (o.node cur) (o.node dst) ((views.neighbors cur e).map o.node) (trail e).visited
    (views.failing cur e) (fun h => hcur (o.distinct _ _ h).symm) ((o.sameNetwork dst).trans (o.sameNetwork cur).symm)
    (by
      intro n hn
      obtain ⟨j, hj, rfl⟩ := List.mem_map.1 hn
      refine ⟨(o.sameNetwork j).trans (o.sameNetwork cur).symm, fun h => ?_⟩
      obtain rfl := o.distinct _ _ h
      exact o.links.irrefl ((views.lists _ _ _).1 hj))
    (by
      intro n hn h
      obtain ⟨j, hj, rfl⟩ := List.mem_map.1 hn
      rw [o.distinct _ _ h])
  have hposition : ∀ c, o.position c = some i ↔ c = o.node i := by
    intro c
    constructor
    · intro h
      have hi := List.find?_some h
      exact (of_decide_eq_true hi).symm
    · rintro rfl
      exact position_node i
  rw [choose, List.mem_filter, List.mem_filterMap, decide_eq_true_eq, and_comm]
  refine and_congr_right fun _ => ?_
  simp only [hposition, exists_eq_right]
  rw [hopAt, trail_entered, hcand (o.node i), hlisted i]
  refine and_congr_right fun _ => ?_
  split_ifs with hd <;> rw [hlisted dst] at hd
  · exact ⟨fun h => ⟨fun _ => node_inj h, fun h => absurd hd h⟩, fun h => congrArg o.node (h.1 hd)⟩
  · exact ⟨fun h => ⟨fun h' => absurd h' hd, fun _ => mt mem_trail_visited.2 h⟩,
      fun h => mt mem_trail_visited.1 (h.2 hd)⟩

/-- **Loop-free.** Whatever the limit, the views and the dead nodes, no node is entered twice. -/
theorem route_nodup (parsePeerId : String → Option Bytes) (views : o.Views) (dead : Finset (Fin o.size))
    (src dst : Fin o.size) (ttl : ℕ) : (route parsePeerId views dead dst ttl src (trail [])).2.entered.Nodup := by
  rw [route_eq_search, trail_entered]
  exact (DepthFirst.search_entered (V := Finset.univ) (by simp) ttl src [] (by simp) List.nodup_nil (by simp)
    (by simp)).nodup

/-- **Delivery.** With a limit of the number of nodes, a live target that live nodes connect to the source is reached. -/
theorem route_reaches (parsePeerId : String → Option Bytes) (views : o.Views) {dead : Finset (Fin o.size)}
    {src dst : Fin o.size} {ttl : ℕ} (hdst : dst ∉ dead) (httl : o.size ≤ ttl)
    (hreach : Relation.ReflTransGen (fun u w => o.links.Adj u w ∧ w ∉ dead) src dst) :
    (route parsePeerId views dead dst ttl src (trail [])).1 = true ∧
      dst ∈ (route parsePeerId views dead dst ttl src (trail [])).2.entered := by
  have hcover : ∀ v ∈ Finset.univ, v ≠ dst → ∀ e, dst ∈ choose parsePeerId views dead dst v e ∨
      ∀ w, (o.links.Adj v w ∧ w ∉ dead) → w ∈ e ∨ w ∈ choose parsePeerId views dead dst v e := by
    intro v _ hv e
    by_cases hd : o.links.Adj v dst
    · exact Or.inl ((mem_choose hv e dst).2 ⟨hdst, hd, fun _ => rfl, fun h => absurd hd h⟩)
    · refine Or.inr ?_
      rintro w ⟨hw, hlive⟩
      by_cases hmem : w ∈ e
      · exact Or.inl hmem
      · exact Or.inr ((mem_choose hv e w).2 ⟨hlive, hw, fun h => absurd h hd, fun _ => hmem⟩)
  have hfound := DepthFirst.search_reaches (V := Finset.univ) (by simp) hcover (Finset.mem_univ src)
    (by simpa using httl) hreach
  rw [route_eq_search]
  exact ⟨hfound, DepthFirst.search_found ttl src [] hfound⟩

/-- **Overlay routing delivers without loops.** In every connected overlay, for every source and target, whatever each
node knows when it decides: no URL is handed a message twice; with a limit of at least the number of nodes the target is
reached; and no decision depends on the order in which neighbours are listed. -/
theorem overlay_routing_delivers (parsePeerId : String → Option Bytes) (o : Overlay) (hconnected : o.links.Connected)
    (views : o.Views) (src dst : Fin o.size) :
    (∀ ttl, ((route parsePeerId views ∅ dst ttl src (trail [])).2.entered.map o.url).Nodup) ∧
    (∀ ttl, o.size ≤ ttl → (route parsePeerId views ∅ dst ttl src (trail [])).1 = true ∧
      dst ∈ (route parsePeerId views ∅ dst ttl src (trail [])).2.entered) ∧
    (∀ (cur : Fin o.size) (listed listed' : List (Fin o.size)) (visited failing : Finset String), listed.Perm listed' →
      nextHop parsePeerId (o.node cur) (o.node dst) (listed.map o.node) visited failing =
        nextHop parsePeerId (o.node cur) (o.node dst) (listed'.map o.node) visited failing) := by
  refine ⟨?_, ?_, ?_⟩
  · intro ttl
    exact (route_nodup parsePeerId views ∅ src dst ttl).map fun i j h => o.distinct i j h
  · intro ttl httl
    apply route_reaches parsePeerId views (Finset.notMem_empty dst) httl
    have hreach := (SimpleGraph.reachable_iff_reflTransGen src dst).1 (hconnected.preconnected src dst)
    exact Relation.ReflTransGen.mono (fun u w h => ⟨h, Finset.notMem_empty w⟩) _ _ hreach
  · intro cur listed listed' visited failing hperm
    apply nextHop_perm _ _ _ _ _ (hperm.map o.node)
    intro a ha b hb hurl
    obtain ⟨i, -, rfl⟩ := List.mem_map.1 ha
    obtain ⟨j, -, rfl⟩ := List.mem_map.1 hb
    rw [o.distinct i j hurl]

/-! ## A chain of three nodes -/

/-- three nodes in a row, without peer ids -/
def chain : Overlay where
  size := 3
  node i := ⟨["http://A/", "http://b", " http://c"].get i, "net", none⟩
  links := SimpleGraph.pathGraph 3
  networkId := "net"
  sameNetwork _ := rfl
  distinct := by decide +kernel

/-- every node lists its neighbours by position, and none is failing -/
def chainViews : chain.Views where
  neighbors i _ := (List.finRange chain.size).filter fun j => decide (i.val + 1 = j.val ∨ j.val + 1 = i.val)
  failing _ _ := ∅
  lists i _ j := by
    rw [List.mem_filter, decide_eq_true_eq]
    exact ⟨fun h => SimpleGraph.pathGraph_adj.2 h.2, fun h => ⟨List.mem_finRange j, SimpleGraph.pathGraph_adj.1 h⟩⟩

/-- from one end of the chain to the other -/
theorem overlay_routing_delivers_chain :
    (route (fun _ => none) chainViews ∅ (2 : Fin 3) 3 (0 : Fin 3) (trail [])).1 = true :=
  ((overlay_routing_delivers (fun _ => none) chain (SimpleGraph.pathGraph_connected 2) chainViews (0 : Fin 3)
    (2 : Fin 3)).2.1 3 le_rfl).1

end Overlay

end Avalon.OverlayRouting
