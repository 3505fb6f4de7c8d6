import RustSql.Sqlite3.IndexWrites
import RustSql.Sqlite3.TableWriter

/-!
# Cells on pages

The cells of a level are cut into groups, and every group fits the page that is written for it.
A cell keeps so little of its payload that an interior page has room for at least two, and a leaf
page for one, so the only errors of a tree's writer are those of numbering its pages.
-/

namespace RustSql.Sqlite3

/-- The errors of a writer that runs out of page numbers, or comes to a number twice. -/
def NumberingError (e : DbError) : Prop :=
  e=.storage "sqlite page number overflow" ∨
    ∃ pageNo : ℕ, e=.storage s!"sqlite page {pageNo} was assigned more than once"

/-- From a state the call returns a value with a property, or fails to number its pages. -/
def WritesFrom {α : Type} (s : PageFile) (x : Eff PageFile α) (post : α → PageFile → Prop) :
    Prop :=
  (∃ a, (x s).1=.ok a ∧ post a (x s).2) ∨ ∃ e, (x s).1=.err e ∧ NumberingError e

namespace WritesFrom

variable {α β : Type} {s : PageFile} {post : α → PageFile → Prop}

/-- A writer that does nothing. -/
theorem ret {a : α} (h : post a s) : WritesFrom s (pure a) post := Or.inl ⟨a,rfl,h⟩

/-- One writer after another. -/
theorem bind {x : Eff PageFile α} {f : α → Eff PageFile β} {post' : β → PageFile → Prop}
    (hx : WritesFrom s x post) (hf : ∀ a t, post a t → WritesFrom t (f a) post') :
    WritesFrom s (x >>= f) post' := by
  rcases hr : x s with ⟨outcome,t⟩
  rw [WritesFrom,hr] at hx
  rcases hx with ⟨a,ha,hpost⟩ | ⟨e,he,herror⟩
  · obtain rfl : outcome=.ok a := ha
    have hrest := hf a t hpost
    rwa [WritesFrom,Eff.bind_of_ok hr]
  · obtain rfl : outcome=.err e := he
    refine Or.inr ⟨e,?_,herror⟩
    rw [Eff.bind_of_err hr]

/-- A weaker postcondition. -/
theorem mono {x : Eff PageFile α} {weaker : α → PageFile → Prop} (h : WritesFrom s x post)
    (hpost : ∀ a t, post a t → weaker a t) : WritesFrom s x weaker := by
  rcases h with ⟨a,ha,h⟩ | h
  · exact Or.inl ⟨a,ha,hpost a _ h⟩
  · exact Or.inr h

/-- Sequencing after reading the state. -/
theorem bind_get {f : PageFile → Eff PageFile β} {post' : β → PageFile → Prop}
    (h : WritesFrom s (f s) post') : WritesFrom s (Eff.get >>= f) post' := h

/-- Sequencing after a pure computation that returns. -/
theorem bind_lift {x : Except DbError α} {a : α} {f : α → Eff PageFile β}
    {post' : β → PageFile → Prop} (hx : x=.ok a) (h : WritesFrom s (f a) post') :
    WritesFrom s (Eff.lift x >>= f) post' := by
  rw [hx]
  exact h

/-- A writer for each element of a list. -/
theorem mapEach {xs : List α} {f : α → Eff PageFile β} {P : α → β → Prop}
    (h : ∀ x∈xs, ∀ t, WritesFrom t (f x) fun y _ => P x y) :
    WritesFrom s (Eff.mapEach xs f) fun ys _ => List.Forall₂ P xs ys := by
  induction xs generalizing s with
  | nil => exact ret .nil
  | cons x xs ih =>
    refine (h x List.mem_cons_self s).bind fun y t hy => ?_
    refine (ih fun z hz => h z (List.mem_cons_of_mem x hz)).bind fun ys u hys => ?_
    exact ret (.cons hy hys)

end WritesFrom

section Numbering

variable {s : PageFile}

/-- `allocate_page` gives a page or says that there are too many. -/
theorem allocatePage_writes : WritesFrom s allocatePage fun _ _ => True := by
  refine .bind_get ?_
  split
  · exact Or.inl ⟨s.nextPageNo,rfl,trivial⟩
  · exact Or.inr ⟨_,rfl,Or.inl rfl⟩

/-- `insert_page` puts the page in its place. -/
theorem insertPage_writes (pageNo : ℕ) (page : Bytes) :
    WritesFrom s (insertPage pageNo page) fun _ t => t.pages pageNo=some page := by
  refine .bind_get ?_
  split
  · exact Or.inr ⟨_,rfl,Or.inr ⟨pageNo,rfl⟩⟩
  · exact Or.inl ⟨(),rfl,Function.update_self _ _ _⟩

/-- The chunks of an overflow chain are written. -/
theorem writeChunks_writes (chunkSize : ℕ) (pageNos : List ℕ) (bytes : Bytes) :
    WritesFrom s (writeChunks chunkSize pageNos bytes) fun _ _ => True := by
  induction pageNos generalizing s bytes with
  | nil => exact .ret trivial
  | cons pageNo rest ih => exact (insertPage_writes _ _).bind fun _ t _ => ih _

/-- So is the chain. -/
theorem writeOverflowChain_writes {bytes : Bytes} (h : bytes≠[]) :
    WritesFrom s (writeOverflowChain bytes) fun _ _ => True := by
  rw [writeOverflowChain,if_neg h]
  refine (WritesFrom.mapEach (P := fun _ _ => True) fun _ _ t => allocatePage_writes).bind ?_
  intro pageNos t _
  exact (writeChunks_writes _ _ _).bind fun _ u _ => .ret trivial

/-- A cell has the length that was computed for it. -/
theorem renderCell_writes (head payload : Bytes) (isIndex : Bool) :
    WritesFrom s (renderCell head payload isIndex) fun bytes _ =>
      bytes.length=renderedLen head payload isIndex := by
  have hle := leafLocalPayloadLen_le payload.length isIndex
  unfold renderCell renderedLen
  dsimp only
  split
  · next hlt =>
    have hrest : payload.drop (leafLocalPayloadLen payload.length isIndex)≠[] := by
      intro hnil
      have hlength := congrArg List.length hnil
      rw [List.length_drop,List.length_nil] at hlength
      omega
    refine (writeOverflowChain_writes hrest).bind fun first t _ => .ret ?_
    rw [List.length_append,List.length_append,List.length_take,encodeBe_length]
    omega
  · refine .ret ?_
    rw [List.length_append,List.length_take]
    omega

end Numbering

/-! ## Pages -/

section Pages

variable {α : Type} {s : PageFile} {render : α → Eff PageFile Bytes} {len : α → ℕ}
  {message : String}

/-- Cells that fit above the pointer array are placed. -/
theorem placeCells_writes {requiredStart : ℕ} {cells : List α}
    (hrender : ∀ cell∈cells, ∀ t, WritesFrom t (render cell) fun bytes _ =>
      bytes.length=len cell) {image : PageImage} (hstart : image.contentStart ≤ pageSize)
    (hroom : requiredStart+(cells.map len).sum ≤ image.contentStart) :
    WritesFrom s (placeCells requiredStart message render cells image) fun image' _ =>
      image'.contentStart ≤ pageSize := by
  induction cells generalizing s image with
  | nil => exact .ret hstart
  | cons cell cells ih =>
    rw [List.map_cons,List.sum_cons] at hroom
    refine (hrender cell List.mem_cons_self s).bind fun bytes t hbytes => ?_
    have hplace : image.place requiredStart message bytes=.ok
        ⟨copyInto image.page (image.contentStart-bytes.length) bytes,
          image.contentStart-bytes.length,
          image.pointers++[image.contentStart-bytes.length]⟩ := by
      unfold PageImage.place
      dsimp only
      rw [if_neg (by omega),if_pos (by unfold pageSize at hstart; omega)]
    refine .bind_lift hplace (ih (fun c hc => hrender c (List.mem_cons_of_mem cell hc)) ?_ ?_)
    · dsimp only
      omega
    · dsimp only
      omega

/-- A page whose cells were placed is finished. -/
theorem finishPage_writes {kind : UInt8} {cellCount : ℕ} {rightmost : Bytes} {image : PageImage}
    (hcount : 2*cellCount ≤ pageSize) (hstart : image.contentStart ≤ pageSize) :
    WritesFrom s (Eff.lift (finishPage kind cellCount rightmost image)) fun _ _ => True := by
  unfold finishPage
  unfold pageSize at hcount hstart
  rw [if_neg (by omega),if_neg (by omega)]
  exact Or.inl ⟨_,rfl,trivial⟩

/-- The room of the pointers and the cells. -/
theorem sum_pointers (cells : List α) :
    (cells.map fun cell => 2+len cell).sum=2*cells.length+(cells.map len).sum := by
  induction cells with
  | nil => rfl
  | cons cell cells ih =>
    rw [List.map_cons,List.sum_cons,ih,List.map_cons,List.sum_cons,List.length_cons]
    omega

/-- The cells of a page, below a header, and what is written over them. -/
theorem cellPage_writes {kind : UInt8} {header cellCount : ℕ} {rightmost : Bytes}
    {cells : List α} (hcount : cellCount=cells.length)
    (hrender : ∀ cell∈cells, ∀ t, WritesFrom t (render cell) fun bytes _ =>
      bytes.length=len cell)
    (hfits : header+(cells.map fun cell => 2+len cell).sum ≤ pageSize) :
    WritesFrom s (do
      let image ← placeCells (header+2*cellCount) message render cells .empty
      Eff.lift (finishPage kind cellCount rightmost image)) fun _ _ => True := by
  rw [sum_pointers] at hfits
  have hplaced : WritesFrom s (placeCells (header+2*cellCount) message render cells .empty)
      fun image _ => image.contentStart ≤ pageSize :=
    placeCells_writes hrender le_rfl (by change _ ≤ pageSize; omega)
  exact hplaced.bind fun image t himage => finishPage_writes (by omega) himage

end Pages

/-! ## Groups -/

section Groups

variable {α : Type} {cellLen : α → Except DbError ℕ} {len : α → ℕ}

/-- A leaf page has room for its header, the pointers and the cells. -/
def LeafFits (len : α → ℕ) (group : List α) : Prop :=
  8+(group.map fun cell => 2+len cell).sum ≤ pageSize

/-- An interior page has room for its header, the pointers and the cells of all children but the
last. -/
def InteriorFits (len : α → ℕ) (group : List α) : Prop :=
  12+(group.dropLast.map fun child => 2+len child).sum ≤ pageSize

/-- One more cell, with its pointer. -/
theorem sum_append_singleton (cells : List α) (cell : α) :
    ((cells++[cell]).map fun cell => 2+len cell).sum=
      (cells.map fun cell => 2+len cell).sum+(2+len cell) := by
  rw [List.map_append,List.sum_append_nat,List.map_singleton,List.sum_singleton]

/-- One cell less takes no more room. -/
theorem sum_dropLast_le (cells : List α) :
    (cells.dropLast.map fun cell => 2+len cell).sum ≤ (cells.map fun cell => 2+len cell).sum := by
  rcases List.eq_nil_or_concat cells with rfl | ⟨front,last,rfl⟩
  · exact le_rfl
  · rw [List.concat_eq_append,List.dropLast_concat,sum_append_singleton]
    omega

/-- The groups are the cells in their order, and each fits on its page. -/
theorem paginateLeafFrom_fits {cells current : List α} {size : ℕ}
    (hlen : ∀ cell∈cells, cellLen cell=.ok (len cell) ∧ 8+(2+len cell) ≤ pageSize)
    (hsize : size=8+(current.map fun cell => 2+len cell).sum) (hfits : size ≤ pageSize) :
    ∃ groups, paginateLeafFrom 8 cellLen cells current size=.ok groups ∧
      groups.flatten=current++cells ∧ ∀ group∈groups, LeafFits len group := by
  induction cells generalizing current size with
  | nil =>
    refine ⟨[current],rfl,by simp,fun group hgroup => ?_⟩
    rw [List.mem_singleton.mp hgroup,LeafFits,←hsize]
    exact hfits
  | cons cell cells ih =>
    obtain ⟨hcell,hroom⟩ := hlen cell List.mem_cons_self
    have hrest : ∀ c∈cells, cellLen c=.ok (len c) ∧ 8+(2+len c) ≤ pageSize :=
      fun c hc => hlen c (List.mem_cons_of_mem cell hc)
    rw [paginateLeafFrom,hcell]
    by_cases hfull : current≠[] ∧ pageSize < size+(2+len cell)
    · have hone : 8+(2+len cell)=8+([cell].map fun cell => 2+len cell).sum := by simp
      obtain ⟨groups,hgroups,hflat,hall⟩ := ih hrest hone hroom
      refine ⟨current :: groups,?_,?_,?_⟩
      · change (if _ then _ else _)=_
        rw [if_pos hfull,if_neg (by omega),hgroups]
        rfl
      · rw [List.flatten_cons,hflat]
        rfl
      · intro group hgroup
        rcases List.mem_cons.mp hgroup with rfl | hgroup
        · rw [LeafFits,←hsize]
          exact hfits
        · exact hall group hgroup
    · have hroom' : ¬pageSize < size+(2+len cell) := by
        intro hlt
        have hnil : current=[] := by
          by_contra hne
          exact hfull ⟨hne,hlt⟩
        rw [hnil,List.map_nil,List.sum_nil] at hsize
        omega
      have hnext : size+(2+len cell)=8+((current++[cell]).map fun cell => 2+len cell).sum := by
        rw [sum_append_singleton]
        omega
      obtain ⟨groups,hgroups,hflat,hall⟩ := ih hrest hnext (by omega)
      refine ⟨groups,?_,?_,hall⟩
      · change (if _ then _ else _)=_
        rw [if_neg hfull,if_neg hroom',hgroups]
      · rw [hflat,List.append_assoc]
        rfl

/-- Leaf cells are cut into groups that fit a page. -/
theorem paginateLeafCells_fits {cells : List α}
    (hlen : ∀ cell∈cells, cellLen cell=.ok (len cell) ∧ 8+(2+len cell) ≤ pageSize) :
    ∃ groups, paginateLeafCells cells 8 cellLen=.ok groups ∧ groups.flatten=cells ∧
      ∀ group∈groups, LeafFits len group := by
  cases cells with
  | nil =>
    refine ⟨[[]],rfl,rfl,fun group hgroup => ?_⟩
    rw [List.mem_singleton.mp hgroup,LeafFits,List.map_nil,List.sum_nil]
    decide
  | cons cell cells =>
    exact paginateLeafFrom_fits hlen rfl (by decide)

/-- Filling interior pages, where two cells fit any page. A page that is full has three
children. -/
theorem paginateInteriorFrom_fits {children current : List α} {last : α} {size : ℕ}
    (hlen : ∀ child∈last :: children, cellLen child=.ok (len child))
    (hroom : ∀ child∈current++last :: children, 12+2*(2+len child) ≤ pageSize)
    (hsize : size=12+(current.map fun child => 2+len child).sum) (hfits : size ≤ pageSize) :
    ∃ groups, paginateInteriorFrom cellLen children current last size=.ok groups ∧
      (∀ group∈groups, InteriorFits len group) ∧ ∀ group∈groups.dropLast, 3 ≤ group.length := by
  induction children generalizing current last size with
  | nil =>
    refine ⟨[current++[last]],rfl,fun group hgroup => ?_,fun group hgroup => ?_⟩
    · rw [List.mem_singleton.mp hgroup,InteriorFits,List.dropLast_concat,←hsize]
      exact hfits
    · cases hgroup
  | cons child children ih =>
    have hlast := hlen last List.mem_cons_self
    have hlen' : ∀ c∈child :: children, cellLen c=.ok (len c) :=
      fun c hc => hlen c (List.mem_cons_of_mem last hc)
    rw [paginateInteriorFrom,hlast]
    by_cases hfull : current≠[] ∧ pageSize < size+(2+len last)
    · obtain ⟨groups,hgroups,hall,hthree⟩ := @ih [] child 12 hlen'
        (fun c hc => hroom c (List.mem_append_right _ (List.mem_cons_of_mem last hc))) rfl
        (by decide)
      have hmany : 2 ≤ current.length := by
        by_contra hshort
        have hpos := List.length_pos_of_ne_nil hfull.1
        obtain ⟨first,rfl⟩ := List.length_eq_one_iff.mp (by omega : current.length=1)
        have hfirst := hroom first (by simp)
        have hroomLast := hroom last (by simp)
        rw [List.map_singleton,List.sum_singleton] at hsize
        omega
      have hne : groups≠[] := (paginateInteriorFrom_pairs hgroups).1
      refine ⟨(current++[last]) :: groups,?_,?_,?_⟩
      · change (if _ then _ else _)=_
        rw [if_pos hfull,hgroups]
        rfl
      · intro group hgroup
        rcases List.mem_cons.mp hgroup with rfl | hgroup
        · rw [InteriorFits,List.dropLast_concat,←hsize]
          exact hfits
        · exact hall group hgroup
      · rw [List.dropLast_cons_of_ne_nil hne]
        intro group hgroup
        rcases List.mem_cons.mp hgroup with rfl | hgroup
        · rw [List.length_append,List.length_singleton]
          omega
        · exact hthree group hgroup
    · have hroomLast := hroom last (by simp)
      have hfits' : ¬pageSize < size+(2+len last) := by
        intro hlt
        have hnil : current=[] := by
          by_contra hne
          exact hfull ⟨hne,hlt⟩
        rw [hnil,List.map_nil,List.sum_nil] at hsize
        omega
      obtain ⟨groups,hgroups,hall,hthree⟩ := @ih (current++[last]) child (size+(2+len last))
        hlen' (by simpa using hroom) (by rw [sum_append_singleton]; omega) (by omega)
      refine ⟨groups,?_,hall,hthree⟩
      change (if _ then _ else _)=_
      rw [if_neg hfull,if_neg hfits',hgroups]

/-- The last group gets its second child: the group before it has three, and two children fit a
page. -/
theorem rebalance_fits {groups : List (List α)}
    (hlen : ∀ child∈groups.flatten, cellLen child=.ok (len child) ∧ 12+2*(2+len child) ≤ pageSize)
    (hall : ∀ group∈groups, InteriorFits len group)
    (hthree : ∀ group∈groups.dropLast, 3 ≤ group.length) :
    ∃ groups', rebalance cellLen groups=.ok groups' ∧ ∀ group∈groups', InteriorFits len group := by
  induction groups with
  | nil => exact ⟨[],rfl,fun group hgroup => by cases hgroup⟩
  | cons first groups ih =>
    rw [List.flatten_cons] at hlen
    unfold rebalance
    split
    · next previous lone heq =>
      obtain ⟨rfl,rfl⟩ := List.cons.inj heq
      have hlong := hthree first List.mem_cons_self
      cases hlast : first.getLast? with
      | none =>
        rw [List.getLast?_eq_none_iff] at hlast
        rw [hlast] at hlong
        cases hlong
      | some moved =>
        have hfirst := List.dropLast_append_getLast? moved hlast
        have hmem : moved∈first := List.mem_of_getLast? hlast
        obtain ⟨hmoved,hroom⟩ := hlen moved (List.mem_append_left _ hmem)
        have hsize : interiorPageSize cellLen [moved,lone]=.ok (12+(2+len moved)) := by
          have hlens : [moved,lone].dropLast.mapM cellLen=.ok [len moved] := by
            change [moved].mapM cellLen=_
            rw [List.mapM_cons,hmoved]
            rfl
          unfold interiorPageSize
          rw [if_neg (by simp),hlens]
          rfl
        dsimp only
        rw [if_neg (by omega),hsize]
        refine ⟨[first.dropLast,[moved,lone]],?_,fun group hgroup => ?_⟩
        · change (if _ then _ else _)=_
          rw [if_neg (by omega)]
        · rcases List.mem_cons.mp hgroup with rfl | hgroup
          · have hfits := hall first List.mem_cons_self
            have hle := @sum_dropLast_le _ len first.dropLast
            rw [InteriorFits] at hfits ⊢
            omega
          · rw [List.mem_singleton.mp hgroup,InteriorFits]
            change 12+(2+len moved+0) ≤ pageSize
            omega
    · next heq => cases heq
    · next hnot heq =>
      obtain ⟨rfl,rfl⟩ := List.cons.inj heq
      have hrest : ∀ group∈groups.dropLast, 3 ≤ group.length := by
        cases groups with
        | nil =>
          intro group hgroup
          cases hgroup
        | cons second groups =>
          intro group hgroup
          exact hthree group (by
            rw [List.dropLast_cons_of_ne_nil (List.cons_ne_nil _ _)]
            exact List.mem_cons_of_mem _ hgroup)
      obtain ⟨groups',hgroups,hfits⟩ := ih
        (fun child hchild => hlen child (List.mem_append_right _ hchild))
        (fun group hgroup => hall group (List.mem_cons_of_mem _ hgroup)) hrest
      refine ⟨first :: groups',by rw [hgroups]; rfl,fun group hgroup => ?_⟩
      rcases List.mem_cons.mp hgroup with rfl | hgroup
      · exact hall group List.mem_cons_self
      · exact hfits group hgroup

/-- Interior children are cut into groups that fit a page, when two cells fit any page. -/
theorem paginateInteriorChildren_fits {children : List α} (hne : children≠[])
    (hlen : ∀ child∈children, cellLen child=.ok (len child) ∧
      12+2*(2+len child) ≤ pageSize) :
    ∃ groups, paginateInteriorChildren children cellLen=.ok groups ∧
      ∀ group∈groups, InteriorFits len group := by
  rcases children with _ | ⟨first,_ | ⟨second,rest⟩⟩
  · exact absurd rfl hne
  · refine ⟨[[first]],rfl,fun group hgroup => ?_⟩
    rw [List.mem_singleton.mp hgroup,InteriorFits,List.dropLast_singleton,List.map_nil,
      List.sum_nil]
    decide
  · obtain ⟨groups,hgroups,hall,hthree⟩ := @paginateInteriorFrom_fits _ cellLen len
      (second :: rest) [] first 12 (fun child hchild => (hlen child hchild).1)
      (fun child hchild => (hlen child hchild).2) rfl (by decide)
    have hflat := paginateInteriorFrom_flatten hgroups
    rw [List.nil_append] at hflat
    obtain ⟨groups',hgroups',hfits⟩ := rebalance_fits
      (fun child hchild => hlen child (by rw [←hflat]; exact hchild)) hall hthree
    refine ⟨groups',?_,hfits⟩
    unfold paginateInteriorChildren
    dsimp only
    rw [hgroups]
    exact hgroups'

/-- Leaf cells are cut, in order, into groups whose pages are written. -/
def LeavesSplit (cells : List α) (cellLen : α → Except DbError ℕ) (len : α → ℕ)
    (build : List α → Eff PageFile Bytes) : Prop :=
  ∃ groups, paginateLeafCells cells 8 cellLen=.ok groups ∧ groups.flatten=cells ∧
    ∀ group∈groups, LeafFits len group ∧ ∀ s, WritesFrom s (build group) fun _ _ => True

/-- Interior children are cut, in order, into groups; those of two children or more into fewer
groups than children, of two or more each, whose pages are written. -/
def ChildrenSplit (children : List α) (cellLen : α → Except DbError ℕ) (len : α → ℕ)
    (build : List α → Eff PageFile Bytes) : Prop :=
  ∃ groups, paginateInteriorChildren children cellLen=.ok groups ∧ groups.flatten=children ∧
    (2 ≤ children.length → groups.length < children.length ∧ ∀ group∈groups, 2 ≤ group.length ∧
      InteriorFits len group ∧ ∀ s, WritesFrom s (build group) fun _ _ => True)

/-- Cells that fit on a leaf alone are put on leaves that fit. -/
theorem leavesSplit {cells : List α} {build : List α → Eff PageFile Bytes}
    (hlen : ∀ cell∈cells, cellLen cell=.ok (len cell) ∧ 8+(2+len cell) ≤ pageSize)
    (hbuild : ∀ group, (∀ cell∈group, cell∈cells) → LeafFits len group →
      ∀ s, WritesFrom s (build group) fun _ _ => True) :
    LeavesSplit cells cellLen len build := by
  obtain ⟨groups,hgroups,hflat,hfits⟩ := paginateLeafCells_fits hlen
  refine ⟨groups,hgroups,hflat,fun group hgroup => ⟨hfits group hgroup,?_⟩⟩
  refine hbuild group (fun cell hcell => ?_) (hfits group hgroup)
  rw [←hflat]
  exact List.mem_flatten.mpr ⟨group,hgroup,hcell⟩

/-- Children are put on interior pages of two at least. -/
theorem childrenSplit {children : List α} {build : List α → Eff PageFile Bytes}
    (hne : children≠[])
    (hlen : ∀ child∈children, cellLen child=.ok (len child) ∧ 12+2*(2+len child) ≤ pageSize)
    (hbuild : ∀ group, (∀ child∈group, child∈children) → 2 ≤ group.length →
      InteriorFits len group → ∀ s, WritesFrom s (build group) fun _ _ => True) :
    ChildrenSplit children cellLen len build := by
  obtain ⟨groups,hgroups,hfits⟩ := paginateInteriorChildren_fits hne hlen
  have hflat := paginateInteriorChildren_flatten hgroups
  refine ⟨groups,hgroups,hflat,fun htwo => ⟨?_,fun group hgroup => ?_⟩⟩
  · have hhalf := paginateInteriorChildren_half htwo hgroups
    omega
  · have hpair := paginateInteriorChildren_pairs htwo hgroups group hgroup
    refine ⟨hpair,hfits group hgroup,hbuild group (fun child hchild => ?_) hpair
      (hfits group hgroup)⟩
    rw [←hflat]
    exact List.mem_flatten.mpr ⟨group,hgroup,hchild⟩

end Groups

/-! ## Sizes of cells -/

section Sizes

/-- The most bytes that stay on a page. -/
theorem leafLocalPayloadLen_max (payloadSize : ℕ) (isIndex : Bool) :
    leafLocalPayloadLen payloadSize isIndex ≤ leafMaxLocal isIndex := by
  have hmax : 489 ≤ leafMaxLocal isIndex := by
    cases isIndex
    · decide
    · decide
  have hmin : leafMinLocal=489 := rfl
  unfold leafLocalPayloadLen overflowingLocal
  rw [hmin]
  split
  · assumption
  · split
    · exact hmax
    · omega

/-- What stays in its cell is bounded. -/
theorem renderedLen_le (head payload : Bytes) (isIndex : Bool) :
    renderedLen head payload isIndex ≤ head.length+leafMaxLocal isIndex+4 := by
  have hmax := leafLocalPayloadLen_max payload.length isIndex
  unfold renderedLen
  dsimp only
  split
  · omega
  · omega

/-- A payload below 2^64 bytes has a length. -/
theorem payloadLenVarint_small {payload : Bytes} (h : payload.length < 2^64) :
    payloadLenVarint payload=.ok (encodeVarint payload.length) := if_pos h

/-- The length of a row's cell. -/
def tableCellLen (cell : TableLeafCellData) : ℕ :=
  renderedLen (encodeVarint cell.payload.length++encodeVarint cell.rowId) cell.payload false

/-- So its cell has a head. -/
theorem tableCellHead_small {cell : TableLeafCellData} (h : cell.payload.length < 2^64) :
    tableCellHead cell=.ok (encodeVarint cell.payload.length++encodeVarint cell.rowId) := by
  rw [tableCellHead,payloadLenVarint_small h]
  rfl

/-- A cell of a table fits on a leaf. -/
theorem tableCellLen_ok {cell : TableLeafCellData} (h : cell.payload.length < 2^64) :
    leafTableCellLen cell=.ok (tableCellLen cell) ∧ 8+(2+tableCellLen cell) ≤ pageSize := by
  have hle := renderedLen_le (encodeVarint cell.payload.length++encodeVarint cell.rowId)
    cell.payload false
  have hlength := (encodeVarint_length cell.payload.length).2
  have hrowId := (encodeVarint_length cell.rowId).2
  have hmax : leafMaxLocal false=4061 := rfl
  rw [List.length_append] at hle
  refine ⟨by rw [leafTableCellLen,tableCellHead_small h]; rfl,?_⟩
  unfold tableCellLen pageSize
  omega

/-- A cell of an index fits on a leaf. -/
theorem indexCellLen_ok {cell : IndexLeafCellData} (h : cell.payload.length < 2^64) :
    leafIndexCellLen cell=.ok (indexCellLen cell) ∧ 8+(2+indexCellLen cell) ≤ pageSize := by
  have hle := renderedLen_le (encodeVarint cell.payload.length) cell.payload true
  have hlength := (encodeVarint_length cell.payload.length).2
  have hmax : leafMaxLocal true=1002 := rfl
  refine ⟨by rw [leafIndexCellLen,payloadLenVarint_small h]; rfl,?_⟩
  unfold indexCellLen pageSize
  omega

/-- The length of a child's cell. -/
def tableChildLen (child : TableChildPage) : ℕ := 4+(encodeVarint child.maxRowId).length

/-- Two cells for children fit on an interior page of a table. -/
theorem tableChildLen_ok (child : TableChildPage) :
    interiorTableCellLen child=.ok (tableChildLen child) ∧
      12+2*(2+tableChildLen child) ≤ pageSize := by
  have hlength := (encodeVarint_length child.maxRowId).2
  refine ⟨rfl,?_⟩
  unfold tableChildLen pageSize
  omega

/-- A key whose record the writer can put into a cell. -/
def Encodes (key : List Value) : Prop :=
  ∃ payload, encodeRecord key=.ok payload ∧ payload.length < 2^64

/-- The length of a child's cell with its key. -/
def indexChildLen (child : IndexChildPage) : ℕ :=
  match encodeRecord child.maxKey with
  | .ok payload => 4+renderedLen (encodeVarint payload.length) payload true
  | .error _ => 0

/-- Two cells for children fit on an interior page of an index. -/
theorem indexChildLen_ok {child : IndexChildPage} (h : Encodes child.maxKey) :
    interiorIndexCellLen child=.ok (indexChildLen child) ∧
      12+2*(2+indexChildLen child) ≤ pageSize := by
  obtain ⟨payload,hpayload,hsmall⟩ := h
  have hle := renderedLen_le (encodeVarint payload.length) payload true
  have hlength := (encodeVarint_length payload.length).2
  have hmax : leafMaxLocal true=1002 := rfl
  constructor
  · rw [interiorIndexCellLen,indexChildLen,hpayload]
    change (payloadLenVarint payload >>= _)=_
    rw [payloadLenVarint_small hsmall]
    rfl
  · rw [indexChildLen,hpayload]
    dsimp only
    unfold pageSize
    omega

end Sizes

/-! ## Pages of the writer -/

section Builders

variable {s : PageFile}

/-- A leaf of a table whose cells fit is built. -/
theorem buildLeafTablePageCells_writes {group : List TableLeafCellData}
    (hsmall : ∀ cell∈group, cell.payload.length < 2^64) (hfits : LeafFits tableCellLen group) :
    WritesFrom s (buildLeafTablePageCells group) fun _ _ => True := by
  refine cellPage_writes rfl (fun cell hcell t => ?_) hfits
  exact .bind_lift (tableCellHead_small (hsmall cell hcell)) (renderCell_writes _ _ _)

/-- A leaf of an index whose cells fit is built. -/
theorem buildLeafIndexPageCells_writes {group : List IndexLeafCellData}
    (hsmall : ∀ cell∈group, cell.payload.length < 2^64) (hfits : LeafFits indexCellLen group) :
    WritesFrom s (buildLeafIndexPageCells group) fun _ _ => True := by
  refine cellPage_writes rfl (fun cell hcell t => ?_) hfits
  exact .bind_lift (payloadLenVarint_small (hsmall cell hcell)) (renderCell_writes _ _ _)

/-- An interior page of a table is built. -/
theorem buildInteriorTablePage_writes {group : List TableChildPage} (htwo : 2 ≤ group.length)
    (hfits : InteriorFits tableChildLen group) :
    WritesFrom s (buildInteriorTablePage group) fun _ _ => True := by
  unfold buildInteriorTablePage
  cases hlast : group.getLast? with
  | none =>
    rw [List.getLast?_eq_none_iff] at hlast
    rw [hlast] at htwo
    cases htwo
  | some rightmost =>
    dsimp only
    rw [if_neg (by omega)]
    refine cellPage_writes List.length_dropLast.symm (fun child _ t => .ret ?_) hfits
    rw [interiorTableCell,List.length_append,encodeBe_length]
    rfl

/-- An interior cell of an index has the length that was counted for it. -/
theorem renderInteriorIndexCell_writes {child : IndexChildPage} (h : Encodes child.maxKey) :
    WritesFrom s (renderInteriorIndexCell child) fun bytes _ =>
      bytes.length=indexChildLen child := by
  obtain ⟨payload,hpayload,hsmall⟩ := h
  refine .bind_lift hpayload (.bind_lift (payloadLenVarint_small hsmall) ?_)
  refine (renderCell_writes _ _ _).mono fun bytes t hbytes => ?_
  rw [hbytes,indexChildLen,hpayload]
  unfold renderedLen
  dsimp only
  rw [List.length_append,encodeBe_length]
  omega

/-- An interior page of an index is built. -/
theorem buildInteriorIndexPage_writes {group : List IndexChildPage} (htwo : 2 ≤ group.length)
    (hkeys : ∀ child∈group, Encodes child.maxKey) (hfits : InteriorFits indexChildLen group) :
    WritesFrom s (buildInteriorIndexPage group) fun _ _ => True := by
  unfold buildInteriorIndexPage
  cases hlast : group.getLast? with
  | none =>
    rw [List.getLast?_eq_none_iff] at hlast
    rw [hlast] at htwo
    cases htwo
  | some rightmost =>
    dsimp only
    rw [if_neg (by omega)]
    refine cellPage_writes List.length_dropLast.symm (fun child hchild t => ?_) hfits
    exact renderInteriorIndexCell_writes (hkeys child (List.dropLast_subset _ hchild))

/-! ## Levels -/

/-- The children of a table are split. -/
theorem tableChildren_split {children : List TableChildPage} (hne : children≠[]) :
    ChildrenSplit children interiorTableCellLen tableChildLen buildInteriorTablePage :=
  childrenSplit hne (fun child _ => tableChildLen_ok child) fun _ _ htwo hfits _ =>
    buildInteriorTablePage_writes htwo hfits

/-- The children of an index are split. -/
theorem indexChildren_split {children : List IndexChildPage} (hne : children≠[])
    (hkeys : ∀ child∈children, Encodes child.maxKey) :
    ChildrenSplit children interiorIndexCellLen indexChildLen buildInteriorIndexPage :=
  childrenSplit hne (fun child hchild => indexChildLen_ok (hkeys child hchild))
    fun _ hgroup htwo hfits _ => buildInteriorIndexPage_writes htwo
      (fun child hchild => hkeys child (hgroup child hchild)) hfits

/-- The levels of a tree end in its root page, which is written. -/
def EndsInRoot (rootPage : ℕ) (levels : Eff PageFile Unit) : Prop :=
  ∀ s, WritesFrom s levels fun _ t => (t.pages rootPage).isSome=true

/-- A loop over one element. -/
theorem WritesFrom.mapEach_one {α β : Type} {x : α} {f : α → Eff PageFile β}
    {post : β → PageFile → Prop} (h : WritesFrom s (f x) post) :
    WritesFrom s (Eff.mapEach [x] f) fun ys t => ∃ y, ys=[y] ∧ post y t :=
  h.bind fun y _ hy => .ret ⟨y,rfl,hy⟩

/-- A group of two has a last child. -/
theorem mem_of_getLast? {α : Type} {group : List α} (htwo : 2 ≤ group.length) :
    ∃ last, group.getLast?=some last ∧ last∈group := by
  cases hlast : group.getLast? with
  | none =>
    rw [List.getLast?_eq_none_iff] at hlast
    rw [hlast] at htwo
    cases htwo
  | some last => exact ⟨last,rfl,List.mem_of_getLast? hlast⟩

/-- A page over a group of children is written where it was allocated. -/
theorem buildTableParent_writes {allocate : Eff PageFile ℕ} {B : ℕ → Prop}
    {group : List TableChildPage} (hallocate : WritesFrom s allocate fun pageNo _ => B pageNo)
    (htwo : 2 ≤ group.length) (hfits : InteriorFits tableChildLen group) :
    WritesFrom s (buildTableParent allocate group) fun parent t =>
      B parent.pageNo ∧ (t.pages parent.pageNo).isSome=true := by
  obtain ⟨last,hlast,-⟩ := mem_of_getLast? htwo
  refine hallocate.bind fun pageNo t hpageNo => ?_
  refine .bind_lift (by rw [lastRowId,hlast]) ?_
  refine (buildInteriorTablePage_writes htwo hfits).bind fun page u _ => ?_
  refine (insertPage_writes pageNo page).bind fun _ v hpage => .ret ⟨hpageNo,?_⟩
  rw [hpage]
  rfl

/-- The parent of a group of two is built. -/
theorem buildParent_writes {message : String} {allocate : Eff PageFile ℕ} {B : ℕ → Prop}
    {group : List IndexChildPage} (hallocate : WritesFrom s allocate fun pageNo _ => B pageNo)
    (htwo : 2 ≤ group.length) (hkeys : ∀ child∈group, Encodes child.maxKey)
    (hfits : InteriorFits indexChildLen group) :
    WritesFrom s (buildParent message allocate group) fun parent t =>
      B parent.pageNo ∧ Encodes parent.maxKey ∧ (t.pages parent.pageNo).isSome=true := by
  obtain ⟨last,hlast,hmem⟩ := mem_of_getLast? htwo
  refine hallocate.bind fun pageNo t hpageNo => ?_
  refine .bind_lift (by rw [lastKey,hlast]) ?_
  refine (buildInteriorIndexPage_writes htwo hkeys hfits).bind fun page u _ => ?_
  refine (insertPage_writes pageNo page).bind fun _ v hpage =>
    .ret ⟨hpageNo,hkeys last hmem,?_⟩
  rw [hpage]
  rfl

/-- The levels of a table end in its root page. -/
theorem buildTableLevels_root {rootPage fuel : ℕ} {children : List TableChildPage}
    (hfuel : children.length < fuel) (htwo : 2 ≤ children.length) :
    EndsInRoot rootPage (buildTableLevels rootPage fuel children) := by
  induction fuel generalizing children with
  | zero => omega
  | succ fuel ih =>
    intro s
    have hne : children≠[] := List.ne_nil_of_length_pos (by omega)
    obtain ⟨groups,hgroups,hflat,hsplit⟩ := tableChildren_split hne
    obtain ⟨hfewer,hall⟩ := hsplit htwo
    rw [buildTableLevels,if_neg (by omega)]
    refine .bind_lift hgroups ?_
    dsimp only
    by_cases hone : groups.length=1
    · obtain ⟨group,rfl⟩ := List.length_eq_one_iff.mp hone
      obtain ⟨hpair,hfits,-⟩ := hall group List.mem_cons_self
      rw [if_pos hone]
      have hparent := @buildTableParent_writes s (pure rootPage) (fun n => n=rootPage) group
        (.ret rfl) hpair hfits
      refine hparent.mapEach_one.bind ?_
      rintro _ t ⟨parent,rfl,hroot,hpage⟩
      rw [hroot] at hpage
      cases fuel with
      | zero => omega
      | succ fuel => exact .ret hpage
    · rw [if_neg hone]
      have hparents : WritesFrom s (Eff.mapEach groups (buildTableParent allocatePage))
          fun parents _ => List.Forall₂ (fun _ _ => True) groups parents := by
        refine .mapEach fun group hgroup _ => ?_
        obtain ⟨hpair,hfits,-⟩ := hall group hgroup
        exact (buildTableParent_writes allocatePage_writes hpair hfits).mono
          fun _ _ _ => trivial
      refine hparents.bind fun parents t hparents => ?_
      have hlength := hparents.length_eq
      have hpos : groups≠[] := by
        rintro rfl
        exact hne hflat.symm
      have hlong := List.length_pos_of_ne_nil hpos
      exact ih (by omega) (by omega) t

/-- The levels of an index end in its root page. -/
theorem buildLevels_root {message : String} {rootPage fuel : ℕ} {children : List IndexChildPage}
    (hfuel : children.length < fuel) (htwo : 2 ≤ children.length)
    (hkeys : ∀ child∈children, Encodes child.maxKey) :
    EndsInRoot rootPage (buildLevels message rootPage fuel children) := by
  induction fuel generalizing children with
  | zero => omega
  | succ fuel ih =>
    intro s
    have hne : children≠[] := List.ne_nil_of_length_pos (by omega)
    obtain ⟨groups,hgroups,hflat,hsplit⟩ := indexChildren_split hne hkeys
    obtain ⟨hfewer,hall⟩ := hsplit htwo
    have hgroupKeys : ∀ group∈groups, ∀ child∈group, Encodes child.maxKey := by
      intro group hgroup child hchild
      refine hkeys child ?_
      rw [←hflat]
      exact List.mem_flatten.mpr ⟨group,hgroup,hchild⟩
    rw [buildLevels,if_neg (by omega)]
    refine .bind_lift hgroups ?_
    dsimp only
    by_cases hone : groups.length=1
    · obtain ⟨group,rfl⟩ := List.length_eq_one_iff.mp hone
      obtain ⟨hpair,hfits,-⟩ := hall group List.mem_cons_self
      rw [if_pos hone]
      have hparent := @buildParent_writes s message (pure rootPage) (fun n => n=rootPage) group
        (.ret rfl) hpair (hgroupKeys group List.mem_cons_self) hfits
      refine hparent.mapEach_one.bind ?_
      rintro _ t ⟨parent,rfl,hroot,-,hpage⟩
      rw [hroot] at hpage
      cases fuel with
      | zero => omega
      | succ fuel => exact .ret hpage
    · rw [if_neg hone]
      have hparents : WritesFrom s (Eff.mapEach groups (buildParent message allocatePage))
          fun parents _ => List.Forall₂ (fun _ (parent : IndexChildPage) =>
            Encodes parent.maxKey) groups parents := by
        refine .mapEach fun group hgroup _ => ?_
        obtain ⟨hpair,hfits,-⟩ := hall group hgroup
        exact (buildParent_writes allocatePage_writes hpair (hgroupKeys group hgroup) hfits).mono
          fun _ _ hparent => hparent.2.1
      refine hparents.bind fun parents t hparents => ?_
      have hlength := hparents.length_eq
      have hpos : groups≠[] := by
        rintro rfl
        exact hne hflat.symm
      have hlong := List.length_pos_of_ne_nil hpos
      refine ih (by omega) (by omega) (fun parent hparent => ?_) t
      obtain ⟨_,-,hkey⟩ := forall₂_mem_left hparents.flip hparent
      exact hkey

end Builders

/-- Cells and children are cut into groups in order; every page of a group is written unless its
pages cannot be numbered, and the levels over two children or more end in the root page. -/
theorem pagination_fits {rows : List TableLeafCellData} {entries : List IndexLeafCellData}
    {tableChildren : List TableChildPage} {indexChildren : List IndexChildPage}
    (hrows : ∀ cell∈rows, cell.payload.length < 2^64)
    (hentries : ∀ cell∈entries, cell.payload.length < 2^64)
    (hkeys : ∀ child∈indexChildren, Encodes child.maxKey)
    (htables : tableChildren≠[]) (hindexes : indexChildren≠[]) (message : String)
    (rootPage : ℕ) :
    LeavesSplit rows leafTableCellLen tableCellLen buildLeafTablePageCells ∧
    LeavesSplit entries leafIndexCellLen indexCellLen buildLeafIndexPageCells ∧
    ChildrenSplit tableChildren interiorTableCellLen tableChildLen buildInteriorTablePage ∧
    ChildrenSplit indexChildren interiorIndexCellLen indexChildLen buildInteriorIndexPage ∧
    (2 ≤ tableChildren.length → EndsInRoot rootPage
      (buildTableLevels rootPage (tableChildren.length+1) tableChildren)) ∧
    (2 ≤ indexChildren.length → EndsInRoot rootPage
      (buildLevels message rootPage (indexChildren.length+1) indexChildren)) := by
  refine ⟨?_,?_,tableChildren_split htables,indexChildren_split hindexes hkeys,
    fun htwo => buildTableLevels_root (Nat.lt_succ_self _) htwo,
    fun htwo => buildLevels_root (Nat.lt_succ_self _) htwo hkeys⟩
  · refine leavesSplit (fun cell hcell => tableCellLen_ok (hrows cell hcell)) ?_
    exact fun group hgroup hfits s => buildLeafTablePageCells_writes
      (fun cell hcell => hrows cell (hgroup cell hcell)) hfits
  · refine leavesSplit (fun cell hcell => indexCellLen_ok (hentries cell hcell)) ?_
    exact fun group hgroup hfits s => buildLeafIndexPageCells_writes
      (fun cell hcell => hentries cell (hgroup cell hcell)) hfits

/-- Five rows of which four fit a page. -/
def bigRows : List TableLeafCellData :=
  (List.range 5).map fun n => ⟨n,List.replicate 900 n.toUInt8⟩

/-- Six children under keys of which four fit a page, so that the last page would have a single
child. -/
def bigChildren : List IndexChildPage :=
  (List.range 6).map fun n => ⟨n+3,[.blob (List.replicate 900 n.toUInt8)]⟩

/-- The rows take two pages; of the children two go to the last page; all these pages are
written, and the levels over them end in the root page. -/
theorem pagination_fits_bigCells :
    (paginateLeafCells bigRows 8 leafTableCellLen=.ok [bigRows.take 4,bigRows.drop 4] ∧
      ∀ group∈[bigRows.take 4,bigRows.drop 4], LeafFits tableCellLen group ∧
        ∀ s, WritesFrom s (buildLeafTablePageCells group) fun _ _ => True) ∧
    (paginateInteriorChildren bigChildren interiorIndexCellLen=
        .ok [bigChildren.take 4,bigChildren.drop 4] ∧
      ∀ group∈[bigChildren.take 4,bigChildren.drop 4], InteriorFits indexChildLen group ∧
        ∀ s, WritesFrom s (buildInteriorIndexPage group) fun _ _ => True) ∧
    EndsInRoot 2 (buildTableLevels 2 3 [⟨5,1⟩,⟨6,2⟩]) ∧
    EndsInRoot 2 (buildLevels "" 2 7 bigChildren) := by
  have hkeys : ∀ child∈bigChildren, Encodes child.maxKey := by
    intro child hchild
    have htest : bigChildren.all (fun child => match encodeRecord child.maxKey with
        | .ok payload => decide (payload.length < 2^64)
        | .error _ => false) := by
      decide +kernel
    have hencodes := List.all_eq_true.mp htest child hchild
    split at hencodes
    · next payload hpayload => exact ⟨payload,hpayload,of_decide_eq_true hencodes⟩
    · cases hencodes
  obtain ⟨hrows,-,-,hchildren,htables,hindexes⟩ := @pagination_fits bigRows [] [⟨5,1⟩,⟨6,2⟩]
    bigChildren (by decide +kernel) (by decide) hkeys (by decide) (by decide) "" 2
  have hleaves : paginateLeafCells bigRows 8 leafTableCellLen=
      .ok [bigRows.take 4,bigRows.drop 4] := by
    decide +kernel
  have hinner : paginateInteriorChildren bigChildren interiorIndexCellLen=
      .ok [bigChildren.take 4,bigChildren.drop 4] := by
    decide +kernel
  obtain ⟨groups,hgroups,-,hfits⟩ := hrows
  obtain ⟨parents,hparents,-,hparentsFit⟩ := hchildren
  rw [hleaves] at hgroups
  rw [hinner] at hparents
  obtain rfl := Except.ok.inj hgroups
  obtain rfl := Except.ok.inj hparents
  exact ⟨⟨hleaves,hfits⟩,⟨hinner,fun group hgroup => ((hparentsFit (by decide)).2 group hgroup).2⟩,
    htables (by decide),hindexes (by decide)⟩

end RustSql.Sqlite3
