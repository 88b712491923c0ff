import EmailTemplate.Adaptation.Stage
import EmailTemplate.Landmark.Footer

/-! Turning a finished message into a template. It never fails: what is not found has no
placeholder. -/

namespace EmailTemplate

def Adaptation.finish (a : Adaptation) : AdaptedTemplate where
  source := a.source
  html := a.document.toHtml
  placeholders := a.placeholders
  details :=
    { suggestedSubjects := if a.hasTitle then [Template.nameToken "title"] else []
      supportsPreheader := a.supportsPreheader
      detectedCtas := a.ctas
      detectedFooter := Landmark.hasFooter a.document
      hasBlocks := a.blocks }

def Stage.runAll (o : AdaptOptions) (stages : List Stage) (a : Adaptation) : Adaptation :=
  stages.foldl (fun a s => s.run o a) a

def adapt (o : AdaptOptions) (html : String) : AdaptedTemplate :=
  (Stage.runAll o Stage.all (.start html)).finish

end EmailTemplate
