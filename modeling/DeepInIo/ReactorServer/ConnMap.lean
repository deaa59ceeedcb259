import DeepInIo.ReactorServer.State
import DeepInIo.Foundation.Allocator
import DeepInIo.Foundation.KeyedList
import DeepInIo.Foundation.LinkedChain
import DeepInIo.Foundation.Transition

/-!
# The map of write buffers

`conn_map.c` over an explicit heap: nodes that are linked to one another, and buffers with strings.
A call takes the addresses that `malloc` and `strdup` return; `malloc` returns no live address, and
following a pointer to a node that is not live, or freeing what is not live, is a fault.

`Holds` is the invariant: the nodes from `head` on form a chain whose descriptors are different, and
the live nodes and buffers are those of the chain.  Under it every call is an operation of a keyed
list (`Holds.step`), so that the map gives the string last set for a descriptor (`connMap_map`).
-/

namespace DeepInIo.ReactorServer

/-- `conn_entry_t` -/
structure ConnNode (κ ν β : Type*) where
  fd : κ
  buf : β
  next : Option ν

/-- `conn_map_t` with the heap it lives in. -/
structure ConnMap (κ ν β : Type*) where
  head : Option ν
  nodes : ν → ConnNode κ ν β
  strings : β → List UInt8
  nodeHeap : Allocator ν
  bufHeap : Allocator β
  /-- Specification: how many nodes were allocated. -/
  created : ℕ

namespace ConnMap

variable {κ ν β : Type*} [DecidableEq κ] [DecidableEq ν] [DecidableEq β]

/-- `conn_map_init`, whatever the memory contains. -/
def connMapInit (nodes : ν → ConnNode κ ν β) (strings : β → List UInt8) : ConnMap κ ν β where
  head := none
  nodes := nodes
  strings := strings
  nodeHeap := .empty
  bufHeap := .empty
  created := 0

variable (m : ConnMap κ ν β)

/-! ### The heap -/

/-- `malloc(sizeof(conn_entry_t))` -/
def mallocNode (a : ν) : Option (ConnMap κ ν β) :=
  (m.nodeHeap.malloc a).map fun h => { m with nodeHeap := h, created := m.created + 1 }

/-- `free` of a node. -/
def freeNode (a : ν) : Option (ConnMap κ ν β) :=
  (m.nodeHeap.free a).map fun h => { m with nodeHeap := h }

/-- `strdup(buf)` -/
def strdup (buf : List UInt8) (b : β) : Option (ConnMap κ ν β) :=
  (m.bufHeap.malloc b).map fun h =>
    { m with bufHeap := h, strings := Function.update m.strings b (cString buf) }

/-- `free` of a buffer. -/
def freeBuf (b : β) : Option (ConnMap κ ν β) :=
  (m.bufHeap.free b).map fun h => { m with bufHeap := h }

/-- The fields of a node are set. -/
def store (a : ν) (v : ConnNode κ ν β) : Option (ConnMap κ ν β) :=
  if m.nodeHeap.live a then some { m with nodes := Function.update m.nodes a v } else none

/-! ### The calls -/

/-- `while (cur)`: the first node with the descriptor, with the node before it if there is one. -/
def search (fd : κ) : ℕ → Option ν → Option ν → Option (Option (Option ν × ν))
  | _, _, none => some none
  | 0, _, some _ => none
  | fuel + 1, prev, some cur =>
    if m.nodeHeap.live cur then
      if (m.nodes cur).fd = fd then some (some (prev, cur))
        else search fd fuel (some cur) (m.nodes cur).next
    else none

/-- The loop from `head` on; a list without a cycle is not longer than the number of nodes. -/
def find (fd : κ) : Option (Option (Option ν × ν)) :=
  m.search fd m.created none m.head

/-- The buffer of the node that was found is freed, and replaced by a copy of the string. -/
def replaceBuf (cur : ν) (buf : List UInt8) (copy : β) : Option (ConnMap κ ν β) :=
  (m.freeBuf (m.nodes cur).buf).bind fun m =>
    (m.strdup buf copy).bind fun m => m.store cur { m.nodes cur with buf := copy }

/-- A new node with a copy of the string is put in front. -/
def insertNode (fd : κ) (buf : List UInt8) (node : ν) (copy : β) : Option (ConnMap κ ν β) :=
  (m.mallocNode node).bind fun m =>
    (m.strdup buf copy).bind fun m =>
      (m.store node { fd := fd, buf := copy, next := m.head }).map fun m =>
        { m with head := some node }

/-- `conn_map_set`, where `malloc` returns `node` and `strdup` returns `copy`. -/
def connMapSet (fd : κ) (buf : List UInt8) (node : ν) (copy : β) : Option (ConnMap κ ν β) :=
  (m.find fd).bind fun
    | some (_, cur) => m.replaceBuf cur buf copy
    | none => m.insertNode fd buf node copy

/-- `conn_map_get` -/
def connMapGet (fd : κ) : Option (Option β) :=
  (m.find fd).map fun r => r.map fun p => (m.nodes p.2).buf

/-- `prev->next = cur->next`, or `map->head = cur->next` for the first node. -/
def unlink (prev : Option ν) (cur : ν) : Option (ConnMap κ ν β) :=
  match prev with
  | some prev => m.store prev { m.nodes prev with next := (m.nodes cur).next }
  | none => some { m with head := (m.nodes cur).next }

/-- The node that was found is unlinked, and freed with its buffer. -/
def removeNode (prev : Option ν) (cur : ν) : Option (ConnMap κ ν β) :=
  (m.unlink prev cur).bind fun m =>
    (m.freeBuf (m.nodes cur).buf).bind fun m => m.freeNode cur

/-- `conn_map_remove` -/
def connMapRemove (fd : κ) : Option (ConnMap κ ν β) :=
  (m.find fd).bind fun
    | some (prev, cur) => m.removeNode prev cur
    | none => some m

/-- The string behind the pointer `conn_map_get` returns. -/
def text (fd : κ) : Option (Option (List UInt8)) :=
  (m.connMapGet fd).map fun r => r.map m.strings

end ConnMap

/-- The calls, with the addresses that `malloc` and `strdup` return. -/
inductive MapCall (κ ν β : Type*)
  | set (fd : κ) (buf : List UInt8) (node : ν) (copy : β)
  | get (fd : κ)
  | remove (fd : κ)

/-- The descriptor of a call. -/
def MapCall.fd {κ ν β : Type*} : MapCall κ ν β → κ
  | set fd .. => fd
  | get fd => fd
  | remove fd => fd

section

variable {κ ν β : Type*} [DecidableEq κ] [DecidableEq ν] [DecidableEq β]

/-- The map under arbitrary calls after `conn_map_init`. -/
def connMap : TransitionSystem (ConnMap κ ν β) (MapCall κ ν β) where
  init m := ∃ nodes strings, m = ConnMap.connMapInit nodes strings
  step m
    | .set fd buf node copy => m.connMapSet fd buf node copy
    | .get fd => (m.connMapGet fd).map fun _ => m
    | .remove fd => m.connMapRemove fd

/-- What a call sets or removes. -/
def MapCall.record (text : κ → Option (List UInt8)) : MapCall κ ν β → κ → Option (List UInt8)
  | set fd buf _ _ => Function.update text fd (some (cString buf))
  | get _ => text
  | remove fd => Function.update text fd none

/-- The string most recently set for each descriptor, unless it was removed after that. -/
def lastSet (calls : List (MapCall κ ν β)) : κ → Option (List UInt8) :=
  calls.foldl MapCall.record fun _ => none

end

namespace ConnMap

variable {κ ν β : Type*} {m m' : ConnMap κ ν β} {l l₁ l₂ : List ν} {fd : κ}

/-- The link of a node. -/
def next (m : ConnMap κ ν β) (a : ν) : Option ν :=
  (m.nodes a).next

/-- The descriptor and the buffer of a node. -/
def entry (m : ConnMap κ ν β) (a : ν) : κ × β :=
  ((m.nodes a).fd, (m.nodes a).buf)

/-- The descriptors and buffers of the nodes of a list. -/
def buffers (m : ConnMap κ ν β) (l : List ν) : List (κ × β) :=
  l.map m.entry

@[simp] theorem buffers_append (m : ConnMap κ ν β) (l₁ l₂ : List ν) :
    m.buffers (l₁ ++ l₂) = m.buffers l₁ ++ m.buffers l₂ :=
  List.map_append

@[simp] theorem buffers_cons (m : ConnMap κ ν β) (a : ν) (l : List ν) :
    m.buffers (a :: l) = m.entry a :: m.buffers l :=
  rfl

/-- What setting a node does to the links. -/
theorem next_update [DecidableEq ν] {a : ν} {v : ConnNode κ ν β}
    (hm : m'.nodes = Function.update m.nodes a v) :
    m'.next = Function.update m.next a v.next := by
  funext b
  simp only [next, hm, Function.update_apply]
  split <;> rfl

/-- What setting a node does to the entries. -/
theorem entry_update [DecidableEq ν] {a : ν} {v : ConnNode κ ν β}
    (hm : m'.nodes = Function.update m.nodes a v) :
    m'.entry = Function.update m.entry a (v.fd, v.buf) := by
  funext b
  simp only [entry, hm, Function.update_apply]
  split <;> rfl

/-- Setting a node outside a list does not change its entries. -/
theorem buffers_update [DecidableEq ν] {a : ν} {v : ConnNode κ ν β}
    (hm : m'.nodes = Function.update m.nodes a v) (ha : a ∉ l) : m'.buffers l = m.buffers l := by
  apply List.map_congr_left
  intro b hb
  have hne : b ≠ a := fun heq => ha (heq ▸ hb)
  rw [entry_update hm, Function.update_of_ne hne]

/-! ### The loop -/

section

variable [DecidableEq κ]

theorem search_absent {p prev : Option ν} {fuel : ℕ} (hl : LinkedChain m.next p l)
    (hlive : ∀ a ∈ l, m.nodeHeap.live a = true) (hfuel : l.length ≤ fuel)
    (hfd : fd ∉ (m.buffers l).map Prod.fst) : m.search fd fuel prev p = some none := by
  induction hl generalizing prev fuel with
  | nil => cases fuel <;> rfl
  | @cons a l hl ih =>
    cases fuel with
    | zero => cases hfuel
    | succ fuel =>
      simp only [buffers, List.map_cons, List.mem_cons, not_or] at hfd
      have hne : (m.nodes a).fd ≠ fd := Ne.symm hfd.1
      rw [search, if_pos (hlive a List.mem_cons_self), if_neg hne]
      exact ih (fun b hb => hlive b (List.mem_cons_of_mem _ hb))
        (Nat.le_of_succ_le_succ hfuel) hfd.2

theorem search_found {p prev : Option ν} {fuel : ℕ} {cur : ν}
    (hl : LinkedChain m.next p (l₁ ++ cur :: l₂))
    (hlive : ∀ a ∈ l₁ ++ cur :: l₂, m.nodeHeap.live a = true)
    (hfuel : (l₁ ++ cur :: l₂).length ≤ fuel) (hfd : fd ∉ (m.buffers l₁).map Prod.fst)
    (hcur : (m.nodes cur).fd = fd) :
    m.search fd fuel prev p = some (some (l₁.getLast?.or prev, cur)) := by
  induction l₁ generalizing p prev fuel with
  | nil =>
    cases hl
    cases fuel with
    | zero => cases hfuel
    | succ fuel =>
      rw [search, if_pos (hlive cur List.mem_cons_self), if_pos hcur]
      rfl
  | cons a l₁ ih =>
    obtain rfl : p = some a := by rw [← hl.head?_eq]; rfl
    cases fuel with
    | zero => cases hfuel
    | succ fuel =>
      simp only [buffers, List.map_cons, List.mem_cons, not_or] at hfd
      have hne : (m.nodes a).fd ≠ fd := Ne.symm hfd.1
      rw [search, if_pos (hlive a List.mem_cons_self), if_neg hne]
      refine (ih hl.tail (fun b hb => hlive b (List.mem_cons_of_mem _ hb))
        (Nat.le_of_succ_le_succ hfuel) hfd.2).trans ?_
      cases l₁ with
      | nil => rfl
      | cons b l₁ => simp [List.getLast?_cons]

/-- Either no node has the descriptor, or there is a first one that has it. -/
theorem cases_fd (m : ConnMap κ ν β) (l : List ν) (fd : κ) :
    fd ∉ (m.buffers l).map Prod.fst ∨
      ∃ l₁ cur l₂, l = l₁ ++ cur :: l₂ ∧ (m.nodes cur).fd = fd ∧
        fd ∉ (m.buffers l₁).map Prod.fst := by
  have hcases := KeyedList.cases_key (fun a => (m.nodes a).fd) l fd
  have hkeys : ∀ l : List ν, (m.buffers l).map Prod.fst = l.map fun a =>
      (m.nodes a).fd := fun l => by
    rw [buffers, List.map_map]
    rfl
  simpa only [hkeys] using hcases

end

/-! ### The invariant -/

variable [DecidableEq ν] [DecidableEq β]

/-- The list from `head` on is `l`, its descriptors are different, and what is live belongs to
it. -/
structure Holds (m : ConnMap κ ν β) (l : List ν) : Prop where
  chain : LinkedChain m.next m.head l
  keys : ((m.buffers l).map Prod.fst).Nodup
  nodes : m.nodeHeap.Owns l
  bufs : m.bufHeap.Owns ((m.buffers l).map Prod.snd)
  length_le : l.length ≤ m.created

theorem holds_init (nodes : ν → ConnNode κ ν β) (strings : β → List UInt8) :
    (connMapInit nodes strings).Holds [] :=
  ⟨.nil, List.nodup_nil, Allocator.owns_empty, Allocator.owns_empty, le_rfl⟩

/-! ### What the calls do to the list -/

/-- The buffer of a node of the list, before those of the others. -/
theorem Holds.bufs_middle {cur : ν} (hh : m.Holds (l₁ ++ cur :: l₂)) :
    m.bufHeap.Owns
      ((m.nodes cur).buf :: ((m.buffers l₁).map Prod.snd ++ (m.buffers l₂).map Prod.snd)) := by
  have hbufs := hh.bufs
  rw [buffers_append, buffers_cons, List.map_append, List.map_cons] at hbufs
  exact hbufs.perm List.perm_middle

/-- A new node is put in front. -/
theorem Holds.insertNode {buf : List UInt8} {node : ν} {copy : β} (hh : m.Holds l)
    (hfd : fd ∉ (m.buffers l).map Prod.fst) (hs : m.insertNode fd buf node copy = some m') :
    m'.Holds (node :: l) ∧ m'.buffers (node :: l) = (fd, copy) :: m.buffers l ∧
      m'.strings = Function.update m.strings copy (cString buf) := by
  obtain ⟨m₁, hm₁, hs⟩ := Option.bind_eq_some_iff.mp hs
  obtain ⟨nodeHeap, hmalloc, rfl⟩ := Option.map_eq_some_iff.mp hm₁
  obtain ⟨m₂, hm₂, hs⟩ := Option.bind_eq_some_iff.mp hs
  obtain ⟨bufHeap, hdup, rfl⟩ := Option.map_eq_some_iff.mp hm₂
  obtain ⟨m₃, hm₃, hm'⟩ := Option.map_eq_some_iff.mp hs
  have hnodes := hh.nodes.of_malloc hmalloc
  have hbufs := hh.bufs.of_malloc hdup
  have hnew : node ∉ l := (List.nodup_cons.mp hnodes.nodup).1
  rw [store, if_pos (hnodes.live_iff.mpr List.mem_cons_self)] at hm₃
  cases hm₃
  have hstored : m'.nodes =
      Function.update m.nodes node { fd := fd, buf := copy, next := m.head } := by
    rw [← hm']
  have hbuffers : m'.buffers (node :: l) = (fd, copy) :: m.buffers l := by
    rw [buffers_cons, entry_update hstored, Function.update_self, buffers_update hstored hnew]
  refine ⟨⟨?_, ?_, ?_, ?_, ?_⟩, hbuffers, ?_⟩
  · rw [next_update hstored, ← hm']
    exact hh.chain.push hnew
  · rw [hbuffers, List.map_cons]
    exact List.nodup_cons.mpr ⟨hfd, hh.keys⟩
  · rw [← hm']
    exact hnodes
  · rw [hbuffers, ← hm']
    exact hbufs
  · rw [← hm']
    exact Nat.succ_le_succ hh.length_le
  · rw [← hm']

/-- The buffer of a node is replaced. -/
theorem Holds.replaceBuf {buf : List UInt8} {cur : ν} {copy : β} (hh : m.Holds (l₁ ++ cur :: l₂))
    (hs : m.replaceBuf cur buf copy = some m') :
    m'.Holds (l₁ ++ cur :: l₂) ∧
      m'.buffers (l₁ ++ cur :: l₂) = m.buffers l₁ ++ ((m.nodes cur).fd, copy) :: m.buffers l₂ ∧
      m'.strings = Function.update m.strings copy (cString buf) := by
  obtain ⟨m₁, hm₁, hs⟩ := Option.bind_eq_some_iff.mp hs
  obtain ⟨freed, hfree, rfl⟩ := Option.map_eq_some_iff.mp hm₁
  obtain ⟨m₂, hm₂, hs⟩ := Option.bind_eq_some_iff.mp hs
  obtain ⟨bufHeap, hdup, rfl⟩ := Option.map_eq_some_iff.mp hm₂
  have hlive : m.nodeHeap.live cur = true :=
    hh.nodes.live_iff.mpr (List.mem_append_right _ List.mem_cons_self)
  have hm' := Option.some.inj ((if_pos hlive).symm.trans hs)
  obtain ⟨hcur, -⟩ := List.nodup_cons.mp (List.nodup_middle.mp hh.nodes.nodup)
  obtain ⟨hcur₁, hcur₂⟩ := not_or.mp fun hmem => hcur (List.mem_append.mpr hmem)
  obtain ⟨freed', hfree', hrest⟩ := hh.bufs_middle.free
  cases hfree'.symm.trans hfree
  have hbufs' := (hrest.of_malloc hdup).perm List.perm_middle.symm
  have hstored : m'.nodes = Function.update m.nodes cur { m.nodes cur with buf := copy } := by
    rw [← hm']
  have hbuffers : m'.buffers (l₁ ++ cur :: l₂) = m.buffers l₁ ++
      ((m.nodes cur).fd, copy) :: m.buffers l₂ := by
    rw [buffers_append, buffers_cons, entry_update hstored, Function.update_self,
      buffers_update hstored hcur₁, buffers_update hstored hcur₂]
  refine ⟨⟨?_, ?_, ?_, ?_, ?_⟩, hbuffers, ?_⟩
  · have hnext : m'.next = m.next := by
      rw [next_update hstored]
      exact Function.update_eq_self cur m.next
    rw [hnext, ← hm']
    exact hh.chain
  · have hkeys := hh.keys
    rw [buffers_append, buffers_cons, List.map_append, List.map_cons] at hkeys
    rwa [hbuffers, List.map_append, List.map_cons]
  · rw [← hm']
    exact hh.nodes
  · rw [hbuffers, List.map_append, List.map_cons, ← hm']
    exact hbufs'
  · rw [← hm']
    exact hh.length_le
  · rw [← hm']

/-- A node that can be allocated is put in front. -/
theorem Holds.insertNode_isSome {buf : List UInt8} {node : ν} {copy : β} (hh : m.Holds l)
    (hnode : m.nodeHeap.live node = false) (hcopy : m.bufHeap.live copy = false) :
    (m.insertNode fd buf node copy).isSome = true := by
  obtain ⟨nodeHeap, hmalloc, hnodes⟩ :=
    hh.nodes.malloc (hh.nodes.live_iff.not.mp (Bool.eq_false_iff.mp hnode))
  obtain ⟨bufHeap, hdup, -⟩ := hh.bufs.malloc (hh.bufs.live_iff.not.mp (Bool.eq_false_iff.mp hcopy))
  have hlive : nodeHeap.live node = true := hnodes.live_iff.mpr List.mem_cons_self
  rw [ConnMap.insertNode, mallocNode, hmalloc, Option.map_some, Option.bind_some, strdup, hdup,
    Option.map_some, Option.bind_some, store, if_pos hlive]
  rfl

/-- A buffer is replaced by one that can be allocated when it is freed. -/
theorem Holds.replaceBuf_isSome {buf : List UInt8} {cur : ν} {copy : β}
    (hh : m.Holds (l₁ ++ cur :: l₂))
    (hcopy : m.bufHeap.live copy = false ∨ (m.nodes cur).buf = copy) :
    (m.replaceBuf cur buf copy).isSome = true := by
  have hfirst := hh.bufs_middle
  obtain ⟨freed, hfree, hrest⟩ := hfirst.free
  have hnew : copy ∉ (m.buffers l₁).map Prod.snd ++ (m.buffers l₂).map Prod.snd := by
    rcases hcopy with hdead | rfl
    · intro hmem
      rw [hfirst.live_iff.mpr (List.mem_cons_of_mem _ hmem)] at hdead
      cases hdead
    · exact (List.nodup_cons.mp hfirst.nodup).1
  obtain ⟨bufHeap, hdup, -⟩ := hrest.malloc hnew
  have hfreed : m.freeBuf (m.nodes cur).buf = some { m with bufHeap := freed } := by
    rw [freeBuf, hfree]
    rfl
  have hlive : m.nodeHeap.live cur = true :=
    hh.nodes.live_iff.mpr (List.mem_append_right _ List.mem_cons_self)
  rw [ConnMap.replaceBuf, hfreed, Option.bind_some, strdup, hdup, Option.map_some,
    Option.bind_some, store, if_pos hlive]
  rfl

/-- A node is unlinked. -/
theorem Holds.unlink {cur : ν} (hh : m.Holds (l₁ ++ cur :: l₂)) :
    ∃ m', m.unlink l₁.getLast? cur = some m' ∧ LinkedChain m'.next m'.head (l₁ ++ l₂) ∧
      m'.entry = m.entry ∧ m'.strings = m.strings ∧ m'.nodeHeap = m.nodeHeap ∧
      m'.bufHeap = m.bufHeap ∧ m'.created = m.created := by
  cases hlast : l₁.getLast? with
  | none =>
    rw [List.getLast?_eq_none_iff] at hlast
    subst hlast
    have hchain := hh.chain
    rw [List.nil_append, ← hchain.head?_eq] at hchain
    exact ⟨_, rfl, hchain.tail, rfl, rfl, rfl, rfl, rfl⟩
  | some prev =>
    have hlive : m.nodeHeap.live prev = true :=
      hh.nodes.live_iff.mpr (List.mem_append_left _ (List.mem_of_getLast? hlast))
    refine ⟨_, if_pos hlive, ?_, ?_, rfl, rfl, rfl, rfl⟩
    · rw [next_update rfl]
      exact hh.chain.unlink hlast
    · rw [entry_update rfl]
      exact Function.update_eq_self prev m.entry

/-- A node is taken out and freed with its buffer. -/
theorem Holds.removeNode {cur : ν} (hh : m.Holds (l₁ ++ cur :: l₂)) :
    ∃ m', m.removeNode l₁.getLast? cur = some m' ∧ m'.Holds (l₁ ++ l₂) ∧
      m'.buffers (l₁ ++ l₂) = m.buffers (l₁ ++ l₂) ∧ m'.strings = m.strings := by
  obtain ⟨m₁, hunlink, hchain, hentry, hstrings, hnodes, hbufs, hcreated⟩ := hh.unlink
  have hlist : m₁.buffers (l₁ ++ l₂) = m.buffers (l₁ ++ l₂) := by
    rw [buffers, hentry]
    rfl
  obtain ⟨bufHeap, hfree, howned⟩ := hh.bufs_middle.free
  have hfreed : m₁.freeBuf (m₁.nodes cur).buf = some { m₁ with bufHeap := bufHeap } := by
    have hbuf : (m₁.nodes cur).buf = (m.nodes cur).buf := congrArg Prod.snd (congrFun hentry cur)
    rw [freeBuf, hbufs, hbuf, hfree]
    rfl
  obtain ⟨nodeHeap, hgone, hrest⟩ := (hh.nodes.perm List.perm_middle).free
  refine ⟨{ m₁ with bufHeap := bufHeap, nodeHeap := nodeHeap }, ?_, ⟨hchain, ?_, hrest, ?_, ?_⟩,
    hlist, hstrings⟩
  · rw [ConnMap.removeNode, hunlink, Option.bind_some, hfreed, Option.bind_some, freeNode,
      hnodes, hgone]
    rfl
  · have hkeys := hh.keys
    rw [buffers_append, buffers_cons, List.map_append, List.map_cons] at hkeys
    change ((m₁.buffers (l₁ ++ l₂)).map Prod.fst).Nodup
    rw [hlist, buffers_append, List.map_append]
    exact (List.nodup_cons.mp (List.nodup_middle.mp hkeys)).2
  · change bufHeap.Owns ((m₁.buffers (l₁ ++ l₂)).map Prod.snd)
    rwa [hlist, buffers_append, List.map_append]
  · have hle := hh.length_le
    change (l₁ ++ l₂).length ≤ m₁.created
    rw [hcreated]
    simp only [List.length_append, List.length_cons] at hle ⊢
    omega

variable [DecidableEq κ]

/-- The loop finds a descriptor of the list, with the node before it, and no other. -/
theorem Holds.find_absent (hh : m.Holds l) (hfd : fd ∉ (m.buffers l).map Prod.fst) :
    m.find fd = some none :=
  search_absent hh.chain (fun _ ha => hh.nodes.live_iff.mpr ha) hh.length_le hfd

theorem Holds.find_found {cur : ν} (hh : m.Holds (l₁ ++ cur :: l₂))
    (hfd : fd ∉ (m.buffers l₁).map Prod.fst) (hcur : (m.nodes cur).fd = fd) :
    m.find fd = some (some (l₁.getLast?, cur)) := by
  refine (search_found hh.chain (fun _ ha => hh.nodes.live_iff.mpr ha) hh.length_le hfd hcur).trans
    ?_
  rw [Option.or_none]

/-- `conn_map_get` returns the buffer of the descriptor. -/
theorem Holds.get_eq (hh : m.Holds l) (fd : κ) :
    m.connMapGet fd = some ((KeyedList.lookup Prod.fst (m.buffers l) fd).map Prod.snd) := by
  rcases m.cases_fd l fd with habsent | ⟨l₁, cur, l₂, rfl, hcur, hl₁⟩
  · rw [connMapGet, hh.find_absent habsent, KeyedList.lookup_of_absent habsent]
    rfl
  · have hsplit : m.buffers (l₁ ++ cur :: l₂) = m.buffers l₁ ++ m.entry cur :: m.buffers l₂ := by
      simp [buffers]
    rw [connMapGet, hh.find_found hl₁ hcur, hsplit, KeyedList.lookup_append hl₁ hcur]
    rfl

/-- The string behind the pointer that `conn_map_get` returns. -/
theorem Holds.text_eq (hh : m.Holds l) (fd : κ) :
    m.text fd = some ((KeyedList.lookup Prod.fst (m.buffers l) fd).map fun e => m.strings e.2) := by
  rw [text, hh.get_eq, Option.map_some, Option.map_map]
  rfl

/-- What a call does to the descriptors and buffers of the list. -/
def onBuffers (es : List (κ × β)) : MapCall κ ν β → List (κ × β)
  | .set fd _ _ copy => KeyedList.put Prod.fst es (fd, copy)
  | .get _ => es
  | .remove fd => KeyedList.remove Prod.fst es fd

/-- What a call does to the strings in the buffers. -/
def onStrings (strings : β → List UInt8) : MapCall κ ν β → β → List UInt8
  | .set _ buf _ copy => Function.update strings copy (cString buf)
  | _ => strings

/-- Every call that succeeds is an operation of the keyed list. -/
theorem Holds.step {call : MapCall κ ν β} (hh : m.Holds l) (hs : connMap.step m call = some m') :
    ∃ l', m'.Holds l' ∧ m'.buffers l' = onBuffers (m.buffers l) call ∧
      m'.strings = onStrings m.strings call := by
  cases call with
  | get fd =>
    obtain ⟨r, -, rfl⟩ := Option.map_eq_some_iff.mp hs
    exact ⟨l, hh, rfl, rfl⟩
  | set fd buf node copy =>
    change m.connMapSet fd buf node copy = some m' at hs
    rcases m.cases_fd l fd with habsent | ⟨l₁, cur, l₂, rfl, hcur, hl₁⟩
    · rw [connMapSet, hh.find_absent habsent] at hs
      obtain ⟨hh', hbuffers, hstrings⟩ := hh.insertNode habsent hs
      exact ⟨node :: l, hh', hbuffers.trans (KeyedList.put_of_absent habsent).symm, hstrings⟩
    · rw [connMapSet, hh.find_found hl₁ hcur] at hs
      obtain ⟨hh', hbuffers, hstrings⟩ := hh.replaceBuf hs
      refine ⟨l₁ ++ cur :: l₂, hh', ?_, hstrings⟩
      rw [hbuffers, hcur, onBuffers, buffers_append, buffers_cons]
      exact (KeyedList.put_append hl₁ hcur).symm
  | remove fd =>
    change m.connMapRemove fd = some m' at hs
    rcases m.cases_fd l fd with habsent | ⟨l₁, cur, l₂, rfl, hcur, hl₁⟩
    · rw [connMapRemove, hh.find_absent habsent] at hs
      cases hs
      exact ⟨l, hh, (KeyedList.remove_of_absent habsent).symm, rfl⟩
    · rw [connMapRemove, hh.find_found hl₁ hcur] at hs
      obtain ⟨m₁, hm₁, hh', hbuffers, hstrings⟩ := hh.removeNode
      cases hm₁.symm.trans hs
      refine ⟨l₁ ++ l₂, hh', ?_, hstrings⟩
      rw [hbuffers, onBuffers, buffers_append, buffers_append, buffers_cons]
      exact (KeyedList.remove_append hl₁ hcur).symm

/-- Different descriptors have different buffers. -/
theorem Holds.buffer_ne {fd' : κ} {e e' : κ × β} (hh : m.Holds l)
    (h : KeyedList.lookup Prod.fst (m.buffers l) fd = some e)
    (h' : KeyedList.lookup Prod.fst (m.buffers l) fd' = some e') (hne : fd' ≠ fd) : e'.2 ≠ e.2 := by
  intro heq
  obtain ⟨hmem, rfl⟩ := KeyedList.mem_of_lookup h
  obtain ⟨hmem', rfl⟩ := KeyedList.mem_of_lookup h'
  exact hne (congrArg Prod.fst (List.inj_on_of_nodup_map hh.bufs.nodup hmem' hmem heq))

/-- A call leaves the pointers and the strings of the other descriptors alone. -/
theorem Holds.step_other {call : MapCall κ ν β} (hh : m.Holds l)
    (hs : connMap.step m call = some m') (hne : fd ≠ call.fd) :
    m'.connMapGet fd = m.connMapGet fd ∧ m'.text fd = m.text fd := by
  obtain ⟨l', hh', hbuffers, hstrings⟩ := hh.step hs
  have hlookup : KeyedList.lookup Prod.fst (m'.buffers l') fd =
      KeyedList.lookup Prod.fst (m.buffers l) fd := by
    rw [hbuffers]
    cases call with
    | set fd' buf node copy =>
      rw [onBuffers, KeyedList.lookup_put]
      exact Function.update_of_ne hne ..
    | get fd' => rfl
    | remove fd' =>
      rw [onBuffers, KeyedList.lookup_remove hh.keys]
      exact Function.update_of_ne hne ..
  refine ⟨by rw [hh'.get_eq, hh.get_eq, hlookup], ?_⟩
  rw [hh'.text_eq, hh.text_eq, hlookup]
  congr 1
  apply Option.map_congr
  intro e he
  rw [hstrings]
  cases call with
  | set fd' buf node copy =>
    have hnew : KeyedList.lookup Prod.fst (m'.buffers l') fd' = some (fd', copy) := by
      rw [hbuffers, onBuffers, KeyedList.lookup_put]
      exact Function.update_self ..
    exact Function.update_of_ne (hh'.buffer_ne hnew (hlookup.trans he) hne) ..
  | get fd' => rfl
  | remove fd' => rfl

/-- A call sets or removes the string of its descriptor. -/
theorem Holds.step_text {call : MapCall κ ν β} {texts : κ → Option (List UInt8)} (hh : m.Holds l)
    (htexts : ∀ fd, m.text fd = some (texts fd)) (hs : connMap.step m call = some m') (fd : κ) :
    m'.text fd = some (call.record texts fd) := by
  by_cases hfd : fd = call.fd
  · subst hfd
    obtain ⟨l', hh', hbuffers, hstrings⟩ := hh.step hs
    cases call with
    | set fd buf node copy =>
      rw [hh'.text_eq, hbuffers, hstrings, onBuffers, KeyedList.lookup_put]
      simp [MapCall.fd, MapCall.record, onStrings]
    | get fd =>
      obtain ⟨r, -, rfl⟩ := Option.map_eq_some_iff.mp hs
      exact htexts fd
    | remove fd =>
      rw [hh'.text_eq, hbuffers, onBuffers, KeyedList.lookup_remove hh.keys]
      simp [MapCall.fd, MapCall.record]
  · rw [(hh.step_other hs hfd).2, htexts]
    cases call with
    | set fd' buf node copy => exact congrArg some (Function.update_of_ne hfd ..).symm
    | get fd' => rfl
    | remove fd' => exact congrArg some (Function.update_of_ne hfd ..).symm

/-- The addresses of a call are ones that `malloc` and `strdup` can return: they are not live
then. -/
def CanReturn (m : ConnMap κ ν β) : MapCall κ ν β → Prop
  | .set fd _ node copy =>
    (m.connMapGet fd = some none → m.nodeHeap.live node = false) ∧
      (m.bufHeap.live copy = false ∨ m.connMapGet fd = some (some copy))
  | _ => True

/-- Every call succeeds with such addresses. -/
theorem Holds.step_isSome {call : MapCall κ ν β} (hh : m.Holds l) (hc : m.CanReturn call) :
    (connMap.step m call).isSome = true := by
  cases call with
  | get fd =>
    change ((m.connMapGet fd).map fun _ => m).isSome = true
    rw [hh.get_eq]
    rfl
  | set fd buf node copy =>
    obtain ⟨hnode, hcopy⟩ := hc
    rw [hh.get_eq] at hnode hcopy
    change (m.connMapSet fd buf node copy).isSome = true
    rcases m.cases_fd l fd with habsent | ⟨l₁, cur, l₂, rfl, hcur, hl₁⟩
    · rw [KeyedList.lookup_of_absent habsent] at hnode hcopy
      rw [connMapSet, hh.find_absent habsent]
      exact hh.insertNode_isSome (hnode rfl) (hcopy.resolve_right (by rintro ⟨⟩))
    · rw [buffers_append, buffers_cons, KeyedList.lookup_append hl₁ hcur] at hcopy
      rw [connMapSet, hh.find_found hl₁ hcur]
      exact hh.replaceBuf_isSome (hcopy.imp_right fun heq => Option.some.inj (Option.some.inj heq))
  | remove fd =>
    change (m.connMapRemove fd).isSome = true
    rcases m.cases_fd l fd with habsent | ⟨l₁, cur, l₂, rfl, hcur, hl₁⟩
    · rw [connMapRemove, hh.find_absent habsent]
      rfl
    · obtain ⟨m', hm', -⟩ := hh.removeNode
      rw [connMapRemove, hh.find_found hl₁ hcur]
      change (m.removeNode l₁.getLast? cur).isSome = true
      rw [hm']
      rfl

/-- The invariant along every run, with the strings last set. -/
theorem exec_holds {m₀ : ConnMap κ ν β} {calls : List (MapCall κ ν β)} (h₀ : connMap.init m₀)
    (h : connMap.exec m₀ calls = some m) :
    (∃ l, m.Holds l) ∧ ∀ fd, m.text fd = some (lastSet calls fd) := by
  obtain ⟨nodes, strings, rfl⟩ := h₀
  refine TransitionSystem.exec_induction
    (P := fun calls m => (∃ l, m.Holds l) ∧ ∀ fd, m.text fd = some (lastSet calls fd))
    ⟨⟨[], holds_init ..⟩, ?_⟩ ?_ h
  · exact (holds_init nodes strings).text_eq
  · rintro calls call m₁ m₂ - ⟨⟨l, hh⟩, htexts⟩ hs
    obtain ⟨l', hh', -⟩ := hh.step hs
    refine ⟨⟨l', hh'⟩, fun fd => ?_⟩
    rw [hh.step_text htexts hs, lastSet, lastSet, List.foldl_append]
    rfl

/-! ### The list of entries -/

/-- The entries of a list of nodes, with their strings. -/
def connEntries (m : ConnMap Fd ν β) (l : List ν) : List ConnEntry :=
  (m.buffers l).map fun e => ⟨e.1, m.strings e.2⟩

/-- What a call does to the entries. -/
def onEntries (es : List ConnEntry) : MapCall Fd ν β → List ConnEntry
  | .set fd buf _ _ => ReactorServer.connMapSet es fd buf
  | .get _ => es
  | .remove fd => ReactorServer.connMapRemove es fd

/-- `conn_map_get` is that of the entries. -/
theorem Holds.text_entries {m : ConnMap Fd ν β} (hh : m.Holds l) (fd : Fd) :
    m.text fd = some (ReactorServer.connMapGet (m.connEntries l) fd) := by
  have hget : ReactorServer.connMapGet (m.connEntries l) fd =
      (KeyedList.lookup Prod.fst (m.buffers l) fd).map fun e => m.strings e.2 := by
    rw [ReactorServer.connMapGet, connEntries, List.find?_map, Option.map_map]
    rfl
  rw [hh.text_eq, hget]

/-- A copy in a buffer of no entry does not change the strings. -/
theorem map_update {strings : β → List UInt8} {text : List UInt8} {copy : β} {es : List (Fd × β)}
    (h : copy ∉ es.map Prod.snd) :
    (es.map fun e => ConnEntry.mk e.1 (Function.update strings copy text e.2)) =
      es.map fun e => ⟨e.1, strings e.2⟩ := by
  apply List.map_congr_left
  intro e he
  have hne : e.2 ≠ copy := fun heq => h (List.mem_map.mpr ⟨e, he, heq⟩)
  rw [Function.update_of_ne hne]

/-- Every call is that of the entries. -/
theorem Holds.step_entries {m m' : ConnMap Fd ν β} {call : MapCall Fd ν β} (hh : m.Holds l)
    (hs : connMap.step m call = some m') :
    ∃ l', m'.Holds l' ∧ m'.connEntries l' = onEntries (m.connEntries l) call := by
  obtain ⟨l', hh', hbuffers, hstrings⟩ := hh.step hs
  refine ⟨l', hh', ?_⟩
  have hnodup := hh'.bufs.nodup
  rw [connEntries, hbuffers, hstrings]
  rw [hbuffers] at hnodup
  cases call with
  | get fd => rfl
  | remove fd =>
    rw [onBuffers, onEntries, KeyedList.remove, connEntries, ReactorServer.connMapRemove,
      List.eraseP_map]
    rfl
  | set fd buf node copy =>
    have hkeys : ∀ es : List (Fd × β),
        (es.map fun e => ConnEntry.mk e.1 (m.strings e.2)).map ConnEntry.fd = es.map Prod.fst :=
          fun es => List.map_map
    change _ = KeyedList.put ConnEntry.fd (m.connEntries l) ⟨fd, cString buf⟩
    rw [onBuffers] at hnodup ⊢
    rw [connEntries, onStrings]
    -- the buffers of the other entries are not the new one
    rcases KeyedList.cases_key Prod.fst (m.buffers l) fd with habsent | ⟨es₁, e, es₂, hes,
        rfl, hes₁⟩
    · rw [KeyedList.put_of_absent habsent, List.map_cons] at hnodup ⊢
      rw [map_update (List.nodup_cons.mp hnodup).1, Function.update_self, KeyedList.put_of_absent]
      rwa [hkeys]
    · have hput : KeyedList.put Prod.fst (es₁ ++ e :: es₂) (e.1, copy) = es₁ ++
          (e.1, copy) :: es₂ :=
        KeyedList.put_append hes₁ rfl
      rw [hes, hput, List.map_append, List.map_cons] at hnodup
      obtain ⟨hnew, -⟩ := List.nodup_cons.mp (List.nodup_middle.mp hnodup)
      obtain ⟨hnew₁, hnew₂⟩ := not_or.mp fun hmem => hnew (List.mem_append.mpr hmem)
      rw [hes, hput, List.map_append, List.map_cons, map_update hnew₁, map_update hnew₂,
        Function.update_self, List.map_append, List.map_cons, KeyedList.put_append]
      · rwa [hkeys]
      · rfl

/-- In every run the heap represents the list of entries that the calls lead to. -/
theorem exec_entries {m₀ m : ConnMap Fd ν β} {calls : List (MapCall Fd ν β)} (h₀ : connMap.init m₀)
    (h : connMap.exec m₀ calls = some m) :
    ∃ l, m.Holds l ∧ m.connEntries l = calls.foldl onEntries [] := by
  obtain ⟨nodes, strings, rfl⟩ := h₀
  refine TransitionSystem.exec_induction
    (P := fun calls m => ∃ l, m.Holds l ∧ m.connEntries l = calls.foldl onEntries [])
    ⟨[], holds_init .., rfl⟩ ?_ h
  rintro calls call m₁ m₂ - ⟨l, hh, hentries⟩ hs
  obtain ⟨l', hh', hentries'⟩ := hh.step_entries hs
  refine ⟨l', hh', ?_⟩
  rw [hentries', hentries, List.foldl_append]
  rfl

end ConnMap

/-- After every sequence of calls that follows `conn_map_init`: the nodes from `head` on form a list
without a cycle, whose descriptors are different; every node and every buffer that was allocated is
that of one entry of the list, or was freed, each allocation once.  `conn_map_get` returns a pointer
to a copy of the string last set for the descriptor and not removed since, and `NULL` otherwise.  A
call for one descriptor leaves the pointers and strings of all others alone, and every call succeeds
with the addresses that the allocations can return. -/
theorem connMap_map {κ ν β : Type*} [DecidableEq κ] [DecidableEq ν] [DecidableEq β]
    {m₀ m : ConnMap κ ν β} {calls : List (MapCall κ ν β)} (h₀ : connMap.init m₀)
    (h : connMap.exec m₀ calls = some m) :
    (∃ l, LinkedChain m.next m.head l ∧ l.Nodup ∧ (l.map fun a => (m.nodes a).fd).Nodup ∧
      (∀ a, m.nodeHeap.allocs a = m.nodeHeap.frees a + l.count a) ∧
      (l.map fun a => (m.nodes a).buf).Nodup ∧
      ∀ b, m.bufHeap.allocs b = m.bufHeap.frees b + (l.map fun a => (m.nodes a).buf).count b) ∧
    (∀ fd, m.text fd = some (lastSet calls fd)) ∧
    (∀ call m', connMap.step m call = some m' → ∀ fd, fd ≠ call.fd →
      m'.connMapGet fd = m.connMapGet fd ∧ m'.text fd = m.text fd) ∧
    ∀ call, m.CanReturn call → (connMap.step m call).isSome = true := by
  obtain ⟨⟨l, hh⟩, htexts⟩ := ConnMap.exec_holds h₀ h
  have hkeys := hh.keys
  have hbufs := hh.bufs
  rw [ConnMap.buffers, List.map_map] at hkeys hbufs
  exact ⟨⟨l, hh.chain, hh.nodes.nodup, hkeys, hh.nodes.allocs, hbufs.nodup, hbufs.allocs⟩, htexts,
    fun call m' hs fd hne => hh.step_other hs hne, fun call hc => hh.step_isSome hc⟩

/-- Two descriptors, a replaced string, and addresses that are used again. -/
theorem connMap_map_reused :
    ∃ m : ConnMap ℤ ℕ ℕ, m.head = some 2 ∧ m.text 5 = some (some [67]) ∧
      m.text 6 = some (some [68]) ∧ m.text 7 = some none ∧ m.bufHeap.frees 1 = 1 := by
  have hexec : (connMap.exec (ConnMap.connMapInit (fun _ => ⟨0, 0, some 9⟩) fun _ => [90])
      [.set (5 : ℤ) [65] 1 (1 : ℕ), .set 6 [66, 0, 67] 2 2, .set 5 [67] 3 1, .remove 6,
        .set 6 [68] 2 2, .get 7]).any
      (fun m => decide (m.head = some 2 ∧ m.bufHeap.frees 1 = 1)) = true := by decide +kernel
  obtain ⟨m, hm, hp⟩ := (Option.any_eq_true ..).mp hexec
  obtain ⟨hhead, hfrees⟩ := of_decide_eq_true hp
  obtain ⟨-, htexts, -⟩ := connMap_map ⟨_, _, rfl⟩ hm
  refine ⟨m, hhead, ?_, ?_, ?_, hfrees⟩
  · rw [htexts]
    rfl
  · rw [htexts]
    rfl
  · rw [htexts]
    rfl

end DeepInIo.ReactorServer
