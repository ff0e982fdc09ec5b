import Mathlib.Data.List.Forall2
import MarketLoad.Catalog
import MarketLoad.Proofs.Decimal.Value

/-!
# Orders by value

Two prices are the same if they are the same number, whatever their scales and whatever the sign of a
zero. Orders, listings and catalogs are the same if their prices are and all else is equal. Leaving
out the sign of a zero keeps them the same (`Order.same_plain`, `Catalog.same_plain`), and those that
are equal without it are the same.
-/

namespace MarketLoad

namespace Price

/-- Both prices are the same number. -/
def Same (p q : Price) : Prop := p.amount.sameValue q.amount = true

theorem same_iff {p q : Price} : p.Same q ↔ p.amount.value = q.amount.value :=
  Decimal.sameValue_iff

/-- The price without the sign of a zero. -/
def plain (p : Price) : Price := ⟨p.amount.plain⟩

theorem same_plain (p : Price) : p.plain.Same p := same_iff.2 p.amount.value_plain

theorem same_of_plain_eq {p q : Price} (h : p.plain = q.plain) : p.Same q := by
  rw [same_iff, ← p.amount.value_plain, ← q.amount.value_plain]
  exact congrArg (·.amount.value) h

end Price

namespace Order

/-- Both orders ask for the same. -/
structure Same (o o' : Order) : Prop where
  symbol : o.symbol = o'.symbol
  side : o.side = o'.side
  kind : o.kind = o'.kind
  price : o.price.Same o'.price
  quantity : o.quantity = o'.quantity

/-- The order without the sign of a zero price. -/
def plain (o : Order) : Order := { o with price := o.price.plain }

theorem same_plain (o : Order) : o.plain.Same o := ⟨rfl, rfl, rfl, o.price.same_plain, rfl⟩

theorem same_of_plain_eq {o o' : Order} (h : o.plain = o'.plain) : o.Same o' := by
  obtain ⟨hsymbol, hside, hkind, hprice, hquantity⟩ := Order.mk.inj h
  exact ⟨hsymbol, hside, hkind, Price.same_of_plain_eq hprice, hquantity⟩

end Order

namespace Listing

/-- Both listings name the same symbol at the same price. -/
structure Same (l l' : Listing) : Prop where
  symbol : l.symbol = l'.symbol
  basePrice : l.basePrice.Same l'.basePrice

/-- The listing without the sign of a zero price. -/
def plain (l : Listing) : Listing := { l with basePrice := l.basePrice.plain }

theorem same_plain (l : Listing) : l.plain.Same l := ⟨rfl, l.basePrice.same_plain⟩

theorem same_of_plain_eq {l l' : Listing} (h : l.plain = l'.plain) : l.Same l' := by
  obtain ⟨hsymbol, hprice⟩ := Listing.mk.inj h
  exact ⟨hsymbol, Price.same_of_plain_eq hprice⟩

end Listing

namespace Catalog

/-- Both catalogs list the same, in the same order. -/
def Same (c c' : Catalog) : Prop := List.Forall₂ Listing.Same c.listings c'.listings

/-- The catalog without the signs of zero prices. -/
def plain (c : Catalog) : Catalog := ⟨c.listings.map Listing.plain⟩

theorem same_plain (c : Catalog) : c.plain.Same c :=
  List.forall₂_map_left_iff.2 (List.forall₂_same.2 fun l _ => l.same_plain)

theorem same_of_plain_eq {c c' : Catalog} (h : c.plain = c'.plain) : c.Same c' := by
  have hlistings : c.listings.map Listing.plain = c'.listings.map Listing.plain :=
    Catalog.mk.inj h
  rw [← List.forall₂_eq_eq_eq, List.forall₂_map_left_iff, List.forall₂_map_right_iff] at hlistings
  exact hlistings.imp fun _ _ => Listing.same_of_plain_eq

end Catalog

end MarketLoad
