import Shadowsocks.Browser.Steps

/-!
Starting the browser with the pages that have been loaded, and what is saved of it. Every tab that
is opened becomes current and selects its page, so the page to select is looked up before.
-/
namespace Shadowsocks

variable {m m' : PageManager} {v : ViewController} {n k t : Nat}

namespace ViewController

/-- The first `k` of the `n` pages have got their tabs. -/
structure Opened (m : PageManager) (t k : Nat) (v : ViewController) : Prop where
  ordered : v.tabBar.Ordered
  tabs : v.tabBar.tabs = (List.range k).map Tab.mk
  max : v.tabBar.currentMaxTag = k
  same : m.Same v.pageManager
  tag : v.currentTabTag = t
  current : 0 < k → v.tabBar.currentTab = some ⟨k - 1⟩ ∧ v.Shows (k - 1)

theorem currentTabTag_setCurrentTab (v : ViewController) (tab : Option Tab) :
    (v.setCurrentTab tab).currentTabTag = v.currentTabTag := by
  simp only [setCurrentTab]
  split
  · rfl
  · cases tab with
    | none => rfl
    | some tab =>
      simp only [Option.elim_some, switchToWebView]
      split <;> rfl

theorem opened_addNewTab (h : v.Opened m t k) (hpage : (m.pageByTag k).isSome) :
    v.addNewTab.Opened m t (k + 1) := by
  have hknown : (v.pageManager.pageByTag v.tabBar.currentMaxTag).isSome := by
    rw [h.same.pageByTag, h.max]
    exact hpage
  obtain ⟨hbar, hsame, hshows⟩ := addNewTab_spec hknown
  have hordered := TabBar.ordered_newTab h.ordered
  refine ⟨?_, ?_, ?_, h.same.trans hsame, ?_, fun _ => ⟨?_, ?_⟩⟩
  · rw [hbar]
    exact ⟨hordered.nodup, hordered.tabViews, hordered.lt_max⟩
  · rw [hbar, List.range_succ, List.map_append]
    simp only [TabBar.newTab, h.tabs, h.max, List.map_cons, List.map_nil]
  · rw [hbar]
    simp only [TabBar.newTab, h.max]
  · rw [← h.tag]
    exact currentTabTag_setCurrentTab _ _
  · rw [hbar, h.max]
    rfl
  · rw [h.max] at hshows
    exact hshows

/-- Every page gets its tab, one after the other. -/
theorem opened_foldl (h : v.Opened m t 0) (hpages : ∀ k < n, (m.pageByTag k).isSome) :
    ((List.range n).foldl (fun v _ => v.addNewTab) v).Opened m t n := by
  induction n with
  | zero => exact h
  | succ n ih =>
    rw [List.range_succ, List.foldl_append, List.foldl_cons, List.foldl_nil]
    apply opened_addNewTab
    · exact ih fun k hk => hpages k (Nat.lt_succ_of_lt hk)
    · exact hpages n (Nat.lt_succ_self n)

end ViewController

namespace PageManager

/-- The pages as they are read, each with its position for a tag. -/
def loaded (pages : List Page) : PageManager := (load pages).initMappingAndTabsByPages

theorem pageByTag_loaded (pages : List Page) (tag : Nat) :
    (loaded pages).pageByTag tag = if tag < pages.length then some tag else none := by
  have hmapping : (loaded pages).pageByTag tag = (List.range pages.length)[tag]? := rfl
  rw [hmapping]
  split
  · rename_i hlt
    exact List.getElem?_range hlt
  · rename_i hge
    exact List.getElem?_eq_none (by rw [List.length_range]; exact Nat.le_of_not_lt hge)

theorem isSome_pageByTag_loaded (pages : List Page) (tag : Nat) :
    ((loaded pages).pageByTag tag).isSome ↔ tag < pages.length := by
  rw [pageByTag_loaded]
  split
  · exact ⟨fun _ => ‹_›, fun _ => rfl⟩
  · exact ⟨nofun, fun h => absurd h ‹_›⟩

theorem mapped_loaded (pages : List Page) : (loaded pages).Mapped where
  nodup := List.nodup_range
  lt_next page hmem := List.mem_range.mp hmem
  mem_iff page := by
    simp only [pageByTag_loaded]
    constructor
    · intro hmem
      exact ⟨page, if_pos (List.mem_range.mp hmem)⟩
    · rintro ⟨tag, htag⟩
      split at htag
      · cases htag
        exact List.mem_range.mpr ‹_›
      · cases htag
  inj tag tag' page h h' := by
    rw [pageByTag_loaded] at h h'
    split at h
    · split at h'
      · exact (Option.some.inj h).trans (Option.some.inj h').symm
      · cases h'
    · cases h

end PageManager

namespace ViewController

/-- The tag that is looked up before the tabs are opened. -/
def selectedTag (pages : List Page) : Nat :=
  (List.range pages.length).foldl
    (fun tag i => if (PageManager.loaded pages).isSelectedAt i then i else tag) 0

theorem foldl_selected_lt {p : Nat → Bool} (hn : 0 < n) :
    (List.range n).foldl (fun tag i => if p i then i else tag) 0 < n := by
  induction n with
  | zero => cases hn
  | succ n ih =>
    rw [List.range_succ, List.foldl_append, List.foldl_cons, List.foldl_nil]
    split
    · exact Nat.lt_succ_self n
    · rcases Nat.eq_zero_or_pos n with rfl | hpos
      · exact hn
      · exact Nat.lt_succ_of_lt (ih hpos)

theorem map_tag_range (n : Nat) : ((List.range n).map Tab.mk).map Tab.tag = List.range n := by
  rw [List.map_map]
  exact List.map_id _

/-- With all tabs open, the last one is current. -/
theorem Opened.invariant {pages : List Page} (hpages : pages ≠ [])
    (h : v.Opened (PageManager.loaded pages) t pages.length) : v.Invariant := by
  have hpos : 0 < pages.length := List.length_pos_of_ne_nil hpages
  obtain ⟨hcurrent, hshows⟩ := h.current hpos
  refine ⟨h.ordered, h.same.mapped (PageManager.mapped_loaded pages), ?_,
    ⟨pages.length - 1⟩, ?_, hcurrent, hshows⟩
  · intro tag
    rw [h.same.pageByTag, h.tabs, map_tag_range, List.mem_range]
    exact PageManager.isSome_pageByTag_loaded pages tag
  · rw [h.tabs]
    exact List.mem_map_of_mem (List.mem_range.mpr (Nat.sub_lt hpos Nat.one_pos))

theorem Opened.tabByTag (h : v.Opened m t k) {tag : Nat} (htag : tag < k) :
    v.tabBar.tabByTag tag = some ⟨tag⟩ := by
  have hmem : (⟨tag⟩ : Tab) ∈ v.tabBar.tabs := by
    rw [h.tabs]
    exact List.mem_map_of_mem (List.mem_range.mpr htag)
  cases hfind : v.tabBar.tabByTag tag with
  | none =>
    have := List.find?_eq_none.mp hfind _ hmem
    simp at this
  | some found =>
    have hfound := List.find?_some hfind
    rw [decide_eq_true_eq] at hfound
    rw [← hfound]

/-- With pages to restore, the browser starts with these, and with the selected one in front. -/
theorem viewDidLoad_spec {pages : List Page} (hpages : pages ≠ []) :
    (viewDidLoad pages).Invariant ∧
      (PageManager.loaded pages).Same (viewDidLoad pages).pageManager ∧
      (viewDidLoad pages).tabBar.tabs = (List.range pages.length).map Tab.mk ∧
      (viewDidLoad pages).tabBar.currentTab = some ⟨selectedTag pages⟩ := by
  have hpos : 0 < pages.length := List.length_pos_of_ne_nil hpages
  have hcount : (PageManager.loaded pages).pages.length = pages.length := List.length_range
  have hopened := opened_foldl (n := pages.length) (t := selectedTag pages)
    (m := PageManager.loaded pages)
    (v := ⟨⟨[], [], none, 0⟩, PageManager.loaded pages, ⟨[], none, 0⟩, selectedTag pages⟩)
    ⟨⟨List.nodup_nil, rfl, nofun⟩, rfl, rfl, .refl _, rfl, nofun⟩
    fun k hk => (PageManager.isSome_pageByTag_loaded pages k).mpr hk
  have hstart : viewDidLoad pages =
      let v := (List.range pages.length).foldl (fun v _ => v.addNewTab)
        (⟨⟨[], [], none, 0⟩, PageManager.loaded pages, ⟨[], none, 0⟩, selectedTag pages⟩ :
          ViewController)
      if v.pageManager.pages.length = 0 then
        v.openLinkInNewTab "http://www.google.com/".toList
      else v.setCurrentTab (v.tabBar.tabByTag v.currentTabTag) := by
    simp only [viewDidLoad, initPagesAndTabs]
    rw [selectedTag, ← hcount]
    rfl
  rw [hstart]
  generalize (List.range pages.length).foldl (fun v _ => v.addNewTab)
    (⟨⟨[], [], none, 0⟩, PageManager.loaded pages, ⟨[], none, 0⟩, selectedTag pages⟩ :
      ViewController) = v at hopened
  have hinvariant := hopened.invariant hpages
  have htag : selectedTag pages < pages.length := foldl_selected_lt hpos
  have hmem : (⟨selectedTag pages⟩ : Tab) ∈ v.tabBar.tabs :=
    List.mem_of_find?_eq_some (hopened.tabByTag htag)
  dsimp only
  rw [if_neg, hopened.tag, hopened.tabByTag htag]
  · obtain ⟨hbar, hsame, -⟩ := setCurrentTab_spec _ (hinvariant.known hmem)
      (fun _ hview => hinvariant.shows_view hview) hinvariant.shows_current
    refine ⟨invariant_setCurrentTab hinvariant hmem, hopened.same.trans hsame, ?_, ?_⟩
    · rw [hbar]
      exact hopened.tabs
    · rw [hbar]
  · rw [hopened.same.pages, hcount]
    exact Nat.ne_of_gt hpos

theorem invariant_viewDidLoad (pages : List Page) : (viewDidLoad pages).Invariant := by
  by_cases hpages : pages = []
  · subst hpages
    have hstart : viewDidLoad [] = (⟨⟨[], [], none, 0⟩, PageManager.loaded [], ⟨[], none, 0⟩, 0⟩ :
        ViewController).openLinkInNewTab "http://www.google.com/".toList := rfl
    rw [hstart]
    exact invariant_openLinkInNewTab ⟨List.nodup_nil, rfl, nofun⟩ (PageManager.mapped_loaded [])
      fun tag => (PageManager.isSome_pageByTag_loaded [] tag).trans ⟨nofun, nofun⟩
  · exact (viewDidLoad_spec hpages).1

/-- The browser after a fresh start and what has happened since. -/
def after (pages : List Page) (es : List Browsing) : ViewController :=
  Run.after step (viewDidLoad pages) es

theorem invariant_run (h : v.Invariant) (es : List Browsing) : (Run.after step v es).Invariant :=
  Run.always (I := Invariant) (fun _ e h => invariant_step h e) h es

theorem switchToWebView_tabBar (v : ViewController) (tag : Nat) :
    (v.switchToWebView tag).tabBar = v.tabBar := by
  simp only [switchToWebView]
  split <;> rfl

theorem setCurrentTab_max (v : ViewController) (newCurrentTab : Option Tab) :
    (v.setCurrentTab newCurrentTab).tabBar.currentMaxTag = v.tabBar.currentMaxTag := by
  simp only [setCurrentTab]
  split
  · rfl
  · cases newCurrentTab with
    | none => rfl
    | some tab => rw [Option.elim_some, switchToWebView_tabBar]

theorem openLinkInNewTab_max (v : ViewController) (url : Text) :
    (v.openLinkInNewTab url).tabBar.currentMaxTag = v.tabBar.currentMaxTag + 1 := by
  rw [openLinkInNewTab]
  exact setCurrentTab_max _ _

theorem leaveTab_max (v : ViewController) (tab : Tab) :
    (v.leaveTab tab).tabBar.currentMaxTag = v.tabBar.currentMaxTag := by
  simp only [leaveTab]
  repeat' split
  all_goals first | rfl | exact setCurrentTab_max v _

/-- Closing the last tab opens another one. -/
theorem closeTab_max (v : ViewController) (tab : Tab) :
    (v.closeTab tab).tabBar.currentMaxTag ≤ v.tabBar.currentMaxTag + 1 := by
  have hdidClose : ∀ v : ViewController,
      (v.tabBarViewTabDidClose tab).tabBar.currentMaxTag ≤ v.tabBar.currentMaxTag + 1 := by
    intro v
    simp only [tabBarViewTabDidClose]
    cases v.tabBar.currentTab with
    | none =>
      split
      · exact (openLinkInNewTab_max _ _).le
      · exact Nat.le_succ _
    | some shown =>
      rw [Option.elim_some]
      split
      · rw [openLinkInNewTab_max, switchToWebView_tabBar]
      · rw [switchToWebView_tabBar]
        exact Nat.le_succ _
  rw [← leaveTab_max v tab]
  exact hdidClose _

/-- An action gives at most one tag. -/
theorem step_max (v : ViewController) (e : Browsing) :
    (v.step e).tabBar.currentMaxTag ≤ v.tabBar.currentMaxTag + 1 := by
  cases e with
  | openLink url => exact (openLinkInNewTab_max v url).le
  | select tag =>
    simp only [step]
    cases v.tabBar.tabViewByTag tag with
    | none => exact Nat.le_succ _
    | some tabView =>
      rw [Option.elim_some, setCurrentTab_max]
      exact Nat.le_succ _
  | close tag =>
    simp only [step]
    cases v.tabBar.tabViewByTag tag with
    | none => exact Nat.le_succ _
    | some tabView =>
      rw [Option.elim_some]
      cases v.tabBar.tabByTag tabView.tag with
      | none => exact Nat.le_succ _
      | some tab => exact closeTab_max v tab
  | drag tag position =>
    simp only [step]
    cases v.tabBar.tabViewByTag tag with
    | none => exact Nat.le_succ _
    | some tabView =>
      have hdrag : (v.tabBar.drag tabView position).currentMaxTag = v.tabBar.currentMaxTag := by
        simp only [TabBar.drag]
        split
        · rfl
        · split <;> rfl
      exact hdrag.le.trans (Nat.le_succ _)
  | didReceiveMemoryWarning => exact Nat.le_succ _
  | didFinishLoad tag title url =>
    simp only [step]
    cases v.pageManager.pageByTag tag with
    | none => exact Nat.le_succ _
    | some page => exact Nat.le_succ _

theorem viewDidLoad_max (pages : List Page) :
    (viewDidLoad pages).tabBar.currentMaxTag ≤ pages.length + 1 := by
  have htabs : ∀ (l : List Nat) (v : ViewController),
      (l.foldl (fun v _ => v.addNewTab) v).tabBar.currentMaxTag =
        v.tabBar.currentMaxTag + l.length := by
    intro l
    induction l with
    | nil => exact fun v => rfl
    | cons i l ih =>
      intro v
      have htab : v.addNewTab.tabBar.currentMaxTag = v.tabBar.currentMaxTag + 1 :=
        setCurrentTab_max _ _
      rw [List.foldl_cons, ih, htab, List.length_cons, Nat.add_right_comm, Nat.add_assoc]
  have hcount : (PageManager.load pages).initMappingAndTabsByPages.pages.length = pages.length :=
    List.length_range
  simp only [viewDidLoad, initPagesAndTabs, hcount]
  split
  · rw [openLinkInNewTab_max, htabs, List.length_range, Nat.zero_add]
  · rw [setCurrentTab_max, htabs, List.length_range, Nat.zero_add]
    exact Nat.le_succ _

/-- Every tag is less than the number of the pages that have been loaded and of the actions since,
so `%d` writes it as it is unless there have been 2^31 of them. -/
theorem tag_lt_after (pages : List Page) (es : List Browsing) {tab : Tab}
    (hmem : tab ∈ (after pages es).tabBar.tabs) : tab.tag < pages.length + 1 + es.length := by
  have hmax : ∀ (es : List Browsing) (v : ViewController),
      (Run.after step v es).tabBar.currentMaxTag ≤ v.tabBar.currentMaxTag + es.length := by
    intro es
    induction es with
    | nil => exact fun v => Nat.le_refl _
    | cons e es ih =>
      intro v
      have hstep := step_max v e
      have hrest := ih (v.step e)
      rw [Run.after_cons, List.length_cons]
      omega
  have htag := (invariant_run (invariant_viewDidLoad pages) es).ordered.lt_max tab.tag
    (List.mem_map_of_mem hmem)
  have hstart := viewDidLoad_max pages
  have hrun := hmax es (viewDidLoad pages)
  omega

/-- The tabs, their views, the pages and the web view that is shown. -/
structure InStep (v : ViewController) : Prop where
  tags : (v.tabBar.tabs.map Tab.tag).Nodup
  tabViews : v.tabBar.tabs.map Tab.tag = v.tabBar.tabViews.map TabView.tag
  keys : ∀ tag, tag ∈ v.tabBar.tabs.map Tab.tag ↔
    (v.pageManager.tagToPageMapping tag).isSome
  values : v.pageManager.pages.Nodup ∧ ∀ page, page ∈ v.pageManager.pages ↔
    ∃! tag, v.pageManager.tagToPageMapping tag = some page
  current : ∃ tab ∈ v.tabBar.tabs, v.tabBar.currentTab = some tab ∧
    (∃ page ∈ v.pageManager.pages, v.pageManager.tagToPageMapping tab.tag = some page ∧
      ∀ other ∈ v.pageManager.pages,
        (v.pageManager.object other).selected = some true ↔ other = page) ∧
    ∃ webView, v.webViewContainer.currentWebView = some webView ∧ webView.tag = tab.tag

/-- Whatever pages have been loaded and whatever has been done since, everything is in step. -/
theorem inStep_after (pages : List Page) (es : List Browsing) : (after pages es).InStep := by
  have h : (after pages es).Invariant := invariant_run (invariant_viewDidLoad pages) es
  refine ⟨h.ordered.nodup, h.ordered.tabViews.symm, fun tag => (h.keys tag).symm,
    ⟨h.mapped.nodup, ?_⟩, ?_⟩
  · intro page
    constructor
    · intro hmem
      obtain ⟨tag, htag⟩ := (h.mapped.mem_iff page).mp hmem
      exact ⟨tag, htag, fun tag' htag' => h.mapped.inj tag' tag page htag' htag⟩
    · rintro ⟨tag, htag, -⟩
      exact (h.mapped.mem_iff page).mpr ⟨tag, htag⟩
  · obtain ⟨tab, htab, hcurrent, hview, page, hpage, hall⟩ := h.current
    refine ⟨tab, htab, hcurrent, ⟨page, (h.mapped.mem_iff page).mpr ⟨_, hpage⟩, hpage, ?_⟩, hview⟩
    intro other hother
    rw [hall other hother, Option.some.injEq, decide_eq_true_eq]

end ViewController

/-! Saving and starting again. -/

namespace PageManager

/-- The titles and addresses, in order. -/
def contents (m : PageManager) : List (Option Text × Option Text) :=
  m.pages.map fun page => ((m.object page).title, (m.object page).url)

theorem Same.contents (h : m.Same m') : m'.contents = m.contents := by
  simp only [PageManager.contents, h.pages, h.title, h.url]

/-- Nothing of the page is nil. -/
def Full (m : PageManager) (page : Nat) : Prop :=
  ∃ title url selected, m.object page = ⟨some title, some url, some selected⟩

/-- Pages without nil can be saved, and are read again as they were. -/
theorem save_read (hfull : ∀ page ∈ m.pages, m.Full page) :
    ∃ data, m.save = some data ∧ data.map Page.read = m.pages.map m.object := by
  simp only [save]
  generalize m.pages = pages at hfull
  induction pages with
  | nil => exact ⟨[], rfl, rfl⟩
  | cons page pages ih =>
    obtain ⟨title, url, selected, hpage⟩ := hfull page (List.mem_cons_self ..)
    obtain ⟨data, hdata, hread⟩ :=
      ih fun other hother => hfull other (List.mem_cons_of_mem _ hother)
    refine ⟨⟨title, url, selected⟩ :: data, ?_, ?_⟩
    · rw [List.mapM_cons, hdata, hpage]
      rfl
    · rw [List.map_cons, List.map_cons, hread, hpage]
      rfl

theorem contents_loaded (pages : List Page) :
    (loaded pages).contents = pages.map fun page => (page.title, page.url) := by
  apply List.ext_getElem
  · simp only [contents, loaded, load, initMappingAndTabsByPages, List.length_map,
      List.length_range]
  · intro i hi hi'
    rw [List.length_map] at hi'
    simp only [contents, loaded, load, initMappingAndTabsByPages, List.getElem_map,
      List.getElem_range, List.getElem?_eq_getElem hi', Option.getD_some]

theorem isSelectedAt_loaded (pages : List Page) {i : Nat} (hi : i < pages.length) :
    (loaded pages).isSelectedAt i = pages[i].selected.getD false := by
  have hpages : (loaded pages).pages = List.range pages.length := rfl
  rw [isSelectedAt, hpages, List.getElem?_range hi, Option.any_some]
  simp only [loaded, load, initMappingAndTabsByPages, List.getElem?_eq_getElem hi,
    Option.getD_some]

/-- The one page that is selected has one position. -/
theorem Selected.position (h : m.Selected t) (hm : m.Mapped) :
    ∃ i, m.pages[i]? = m.pageByTag t ∧ i < m.pages.length ∧
      ∀ j < m.pages.length, m.isSelectedAt j = decide (j = i) := by
  obtain ⟨page, hpage, hall⟩ := h
  obtain ⟨i, hi, hget⟩ := List.getElem_of_mem ((hm.mem_iff page).mpr ⟨t, hpage⟩)
  refine ⟨i, ?_, hi, ?_⟩
  · rw [hpage, ← hget]
    exact List.getElem?_eq_getElem hi
  · intro j hj
    rw [isSelectedAt, List.getElem?_eq_getElem hj, Option.any_some,
      hall _ (List.getElem_mem hj), Option.getD_some, ← hget]
    exact decide_eq_decide.mpr hm.nodup.getElem_inj_iff

end PageManager

namespace ViewController

theorem foldl_selected_eq {p : Nat → Bool} {i : Nat} (hi : i < n)
    (hp : ∀ j < n, p j = decide (j = i)) :
    (List.range n).foldl (fun tag j => if p j then j else tag) 0 = i := by
  induction n with
  | zero => cases hi
  | succ n ih =>
    rw [List.range_succ, List.foldl_append, List.foldl_cons, List.foldl_nil,
      hp n (Nat.lt_succ_self n)]
    by_cases heq : n = i
    · rw [if_pos (decide_eq_true heq)]
      exact heq
    · rw [if_neg (by rw [decide_eq_true_eq]; exact heq)]
      exact ih (by omega) fun j hj => hp j (Nat.lt_succ_of_lt hj)

/-- The second browser has the pages of the first one, in the same order, each with a tab whose
tag is its position, and the same page is in front. -/
structure Restores (v v' : ViewController) : Prop where
  contents : v'.pageManager.contents = v.pageManager.contents
  tags : v'.tabBar.tabs.map Tab.tag = List.range v.pageManager.pages.length
  positions : ∀ i < v.pageManager.pages.length,
    v'.pageManager.pageByTag i = v'.pageManager.pages[i]?
  selected : ∃ i < v.pageManager.pages.length, v'.tabBar.currentTab = some ⟨i⟩ ∧
    ∀ j < v.pageManager.pages.length, v.pageManager.isSelectedAt j = decide (j = i) ∧
      v'.pageManager.isSelectedAt j = decide (j = i)

/-- A start with the pages as they are. -/
theorem Invariant.restores (h : v.Invariant) :
    v.Restores (viewDidLoad (v.pageManager.pages.map v.pageManager.object)) := by
  obtain ⟨tab, -, -, -, hselected⟩ := h.current
  obtain ⟨i, -, hi, hposition⟩ := hselected.position h.mapped
  have hlength : (v.pageManager.pages.map v.pageManager.object).length =
      v.pageManager.pages.length := List.length_map _
  have hne : v.pageManager.pages.map v.pageManager.object ≠ [] := by
    apply List.ne_nil_of_length_pos
    omega
  obtain ⟨hinvariant, hsame, htabs, hcurrent⟩ := viewDidLoad_spec hne
  have htag : selectedTag (v.pageManager.pages.map v.pageManager.object) = i := by
    rw [selectedTag, hlength]
    apply foldl_selected_eq hi
    intro j hj
    rw [PageManager.isSelectedAt_loaded _ (hlength.symm ▸ hj), ← hposition j hj,
      PageManager.isSelectedAt, List.getElem?_eq_getElem hj, Option.any_some, List.getElem_map]
  have hpages : ∀ j < v.pageManager.pages.length,
      (viewDidLoad (v.pageManager.pages.map v.pageManager.object)).pageManager.pages[j]? =
        some j := by
    intro j hj
    rw [hsame.pages]
    exact List.getElem?_range (hlength.symm ▸ hj)
  have hknown : ∀ j < v.pageManager.pages.length,
      (viewDidLoad (v.pageManager.pages.map v.pageManager.object)).pageManager.pageByTag j =
        some j := by
    intro j hj
    rw [hsame.pageByTag, PageManager.pageByTag_loaded, if_pos (hlength.symm ▸ hj)]
  refine ⟨?_, ?_, fun j hj => (hknown j hj).trans (hpages j hj).symm, i, hi, ?_, ?_⟩
  · rw [hsame.contents, PageManager.contents_loaded, List.map_map]
    rfl
  · rw [htabs, map_tag_range, hlength]
  · rw [hcurrent, htag]
  · intro j hj
    refine ⟨hposition j hj, ?_⟩
    obtain ⟨page, hpage, hall⟩ := (hinvariant.shows_current hcurrent).2
    rw [htag, hknown i hi] at hpage
    cases hpage
    rw [PageManager.isSelectedAt, hpages j hj, Option.any_some]
    have hmem := List.mem_of_getElem? (hpages j hj)
    rw [hall j hmem, Option.getD_some]

/-- Whatever has been done, what is saved can be saved, and a start with it shows the same. -/
theorem restores_after (pages : List Page) (es : List Browsing)
    (hfull : ∀ page ∈ (after pages es).pageManager.pages,
      ((after pages es).pageManager.object page).title ≠ none ∧
        ((after pages es).pageManager.object page).url ≠ none) :
    ∃ data, (after pages es).pageManager.save = some data ∧
      (after pages es).Restores (viewDidLoad (data.map Page.read)) := by
  have h : (after pages es).Invariant := invariant_run (invariant_viewDidLoad pages) es
  have hpages : ∀ page ∈ (after pages es).pageManager.pages,
      (after pages es).pageManager.Full page := by
    intro page hmem
    obtain ⟨htitle, hurl⟩ := hfull page hmem
    obtain ⟨title, htitle⟩ := Option.ne_none_iff_exists'.mp htitle
    obtain ⟨url, hurl⟩ := Option.ne_none_iff_exists'.mp hurl
    obtain ⟨tab, -, -, -, shown, -, hall⟩ := h.current
    refine ⟨title, url, decide (page = shown), ?_⟩
    rw [← htitle, ← hurl, ← hall page hmem]
  obtain ⟨data, hdata, hread⟩ := PageManager.save_read hpages
  refine ⟨data, hdata, ?_⟩
  rw [hread]
  exact h.restores

/-- A link is opened, and the first tab is shown again. -/
theorem restores_after_openLink :
    ∃ data, (after [] [.openLink [], .select 0]).pageManager.save = some data ∧
      (after [] [.openLink [], .select 0]).Restores (viewDidLoad (data.map Page.read)) :=
  restores_after [] [.openLink [], .select 0] (by decide +kernel)

end ViewController

end Shadowsocks
