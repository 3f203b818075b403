import EmbeddedLang.Expr.Basic

/-!
An expression and everything below it, outermost first and left to right. A subquery is not
entered: it has names of its own.
-/

namespace EmbeddedLang

mutual

def Expr.walk : Expr → List Expr
  | e@(.literal ..) | e@(.identifier ..) | e@(.placeholder ..) | e@(.star ..)
  | e@(.qualifiedStar ..) | e@(.existence ..) | e@(.subquery ..) => [e]
  | e@(.unary _ _ x) | e@(.member _ x _) | e@(.grouped _ x) | e@(.isNull _ x _)
  | e@(.cast _ x _) | e@(.defined _ x _) => e :: x.walk
  | e@(.binary _ _ x y) | e@(.index _ x y) => e :: (x.walk ++ y.walk)
  | e@(.call _ x args _) | e@(.filter _ x _ args) | e@(.test _ x _ args _) =>
    e :: (x.walk ++ walkItems args)
  | e@(.slice _ x first last) => e :: (x.walk ++ walkOption first ++ walkOption last)
  | e@(.list _ items) => e :: walkItems items
  | e@(.conditional _ x y z) | e@(.between _ x y z _) => e :: (x.walk ++ y.walk ++ z.walk)
  | e@(.cases _ operand branches otherwise) =>
    e :: (walkOption operand ++ walkWhens branches ++ walkOption otherwise)

def walkOption : Option Expr → List Expr
  | none => []
  | some e => e.walk

def walkItems : List Item → List Expr
  | [] => []
  | item :: rest => item.walk ++ walkItems rest

def Item.walk : Item → List Expr
  | ⟨_, e⟩ => e.walk

def walkWhens : List When → List Expr
  | [] => []
  | branch :: rest => branch.walk ++ walkWhens rest

def When.walk : When → List Expr
  | ⟨c, r⟩ => c.walk ++ r.walk

end

end EmbeddedLang
