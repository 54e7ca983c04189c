import BlockLanguage.CommandLine.Run
import BlockLanguage.Directory
import BlockLanguage.Layout
import BlockLanguage.Main
import BlockLanguage.Outline.Tree
import BlockLanguage.Parse
import BlockLanguage.Proofs.Assembly
import BlockLanguage.Proofs.Budget
import BlockLanguage.Proofs.ByteOrder
import BlockLanguage.Proofs.Check
import BlockLanguage.Proofs.Conservation
import BlockLanguage.Proofs.Enclosed
import BlockLanguage.Proofs.Exactness
import BlockLanguage.Proofs.Exchange
import BlockLanguage.Proofs.Flatten
import BlockLanguage.Proofs.InPlace
import BlockLanguage.Proofs.Joined
import BlockLanguage.Proofs.Margins
import BlockLanguage.Proofs.Obtainable
import BlockLanguage.Proofs.Placement
import BlockLanguage.Proofs.Rearranged
import BlockLanguage.Proofs.Repeated
import BlockLanguage.Proofs.Segments
import BlockLanguage.Proofs.Slips
import BlockLanguage.Proofs.Spaced
import BlockLanguage.Proofs.ViablePrefix
import BlockLanguage.Proofs.WordClasses
import BlockLanguage.Proofs.Decimal
import BlockLanguage.Proofs.Formatter
import BlockLanguage.Proofs.Listing
import BlockLanguage.Proofs.Telling
import BlockLanguage.Proofs.Outlined
