import Stepflow.Text.LetterCase
import Stepflow.Text.Parts
import Stepflow.Text.Printable

/-!
# Stepflow.Text.HostName — names of hosts beyond ASCII

A host name is a list of labels with dots between them, and perhaps a dot at the end.  A label has
letters, digits, marks and hyphens, the letters in lower case; it neither begins nor ends with a
hyphen, and has no two of them after its first two characters.
-/

namespace Stepflow.Text

/-- Ranges of printable code points beyond ASCII that cannot stand in a label: symbols,
punctuation, and characters that stand for others. -/
def barredRanges : List (Nat × Nat) := [
  (128, 182), (184, 215), (247, 247), (307, 307), (320, 320), (329, 329), (383, 383), (454, 460),
  (499, 499), (688, 696), (706, 709), (722, 747), (749, 749), (751, 767), (832, 833), (835, 837),
  (847, 847), (884, 884), (890, 890), (894, 903), (976, 982), (1008, 1010), (1013, 1014),
  (1154, 1154), (1160, 1161), (1370, 1375), (1415, 1415), (1417, 1423), (1470, 1470),
  (1472, 1472), (1475, 1475), (1478, 1478), (1536, 1551), (1563, 1567), (1600, 1600),
  (1642, 1645), (1653, 1656), (1748, 1748), (1757, 1758), (1769, 1769), (1792, 1807),
  (2038, 2042), (2046, 2047), (2096, 2110), (2142, 2142), (2184, 2184), (2192, 2193),
  (2274, 2274), (2392, 2399), (2404, 2405), (2416, 2416), (2524, 2527), (2546, 2555),
  (2557, 2557), (2611, 2611), (2614, 2614), (2649, 2651), (2654, 2654), (2678, 2678),
  (2800, 2801), (2908, 2909), (2928, 2928), (2930, 2935), (3056, 3066), (3191, 3199),
  (3204, 3204), (3407, 3407), (3416, 3422), (3440, 3449), (3572, 3572), (3635, 3635),
  (3647, 3647), (3663, 3663), (3674, 3675), (3763, 3763), (3804, 3805), (3841, 3850),
  (3852, 3863), (3866, 3871), (3882, 3892), (3894, 3894), (3896, 3896), (3898, 3901),
  (3907, 3907), (3917, 3917), (3922, 3922), (3927, 3927), (3932, 3932), (3945, 3945),
  (3955, 3955), (3957, 3961), (3969, 3969), (3973, 3973), (3987, 3987), (3997, 3997),
  (4002, 4002), (4007, 4007), (4012, 4012), (4025, 4025), (4030, 4037), (4039, 4058),
  (4170, 4175), (4254, 4255), (4347, 4348), (4352, 4607), (4960, 4988), (5008, 5120),
  (5741, 5742), (5760, 5760), (5787, 5788), (5867, 5872), (5941, 5942), (6068, 6069),
  (6100, 6102), (6104, 6107), (6128, 6159), (6464, 6469), (6618, 6655), (6686, 6687),
  (6816, 6822), (6824, 6829), (6846, 6846), (7002, 7018), (7028, 7038), (7164, 7167),
  (7227, 7231), (7294, 7367), (7379, 7379), (7468, 7470), (7472, 7482), (7484, 7501),
  (7503, 7530), (7544, 7544), (7579, 7615), (7834, 7835), (8049, 8049), (8051, 8051),
  (8053, 8053), (8055, 8055), (8057, 8057), (8059, 8059), (8061, 8103), (8114, 8116),
  (8119, 8132), (8135, 8143), (8147, 8147), (8157, 8159), (8163, 8163), (8173, 8180),
  (8183, 8203), (8206, 8525), (8527, 8578), (8581, 11263), (11388, 11389), (11493, 11498),
  (11513, 11519), (11631, 11632), (11776, 11822), (11824, 12292), (12296, 12329), (12334, 12347),
  (12349, 12351), (12443, 12444), (12447, 12448), (12543, 12543), (12593, 12703), (12736, 12771),
  (12800, 13311), (19904, 19967), (42128, 42182), (42238, 42239), (42509, 42511), (42608, 42611),
  (42622, 42622), (42652, 42653), (42726, 42735), (42738, 42774), (42784, 42785), (42864, 42864),
  (42889, 42890), (42994, 42996), (43000, 43001), (43048, 43051), (43056, 43065), (43124, 43127),
  (43214, 43215), (43256, 43258), (43260, 43260), (43310, 43311), (43359, 43388), (43457, 43469),
  (43486, 43487), (43612, 43615), (43639, 43641), (43742, 43743), (43760, 43761), (43867, 43871),
  (43881, 43967), (44011, 44011), (55216, 64013), (64016, 64016), (64018, 64018), (64021, 64030),
  (64032, 64032), (64034, 64034), (64037, 64038), (64042, 64285), (64287, 65049), (65072, 65138),
  (65140, 65533), (65792, 66044), (66273, 66299), (66336, 66339), (66369, 66369), (66378, 66378),
  (66463, 66463), (66512, 66517), (66927, 66927), (67457, 67514), (67671, 67679), (67703, 67711),
  (67751, 67759), (67835, 67839), (67862, 67871), (67903, 67903), (68028, 68029), (68032, 68095),
  (68160, 68184), (68221, 68223), (68253, 68255), (68296, 68296), (68331, 68342), (68409, 68415),
  (68440, 68447), (68472, 68479), (68505, 68527), (68858, 68863), (69216, 69246), (69293, 69293),
  (69405, 69414), (69457, 69465), (69510, 69513), (69573, 69579), (69703, 69733), (69819, 69825),
  (69837, 69837), (69952, 69955), (70004, 70005), (70085, 70088), (70093, 70093), (70107, 70107),
  (70109, 70132), (70200, 70205), (70313, 70313), (70731, 70735), (70746, 70749), (70854, 70854),
  (71105, 71127), (71233, 71235), (71264, 71276), (71353, 71353), (71482, 71487), (71739, 71739),
  (71914, 71922), (72004, 72006), (72162, 72162), (72255, 72262), (72346, 72348), (72350, 72354),
  (72769, 72773), (72794, 72817), (73463, 73464), (73664, 73727), (74752, 74868), (77809, 77810),
  (78896, 78904), (92782, 92783), (92917, 92917), (92983, 92991), (92996, 92997), (93019, 93025),
  (93824, 93850), (94178, 94178), (113820, 113820), (113823, 113827), (118608, 121343),
  (121399, 121402), (121453, 121460), (121462, 121475), (121477, 121483), (123215, 123215),
  (123647, 123647), (125127, 125135), (125278, 130041), (194560, 195101), (917505, 1114109)]

/-- Whether a character can stand in a label. -/
def isLabelChar (c : Char) : Bool :=
  if c.toNat < 128 then c.isLower || c.isDigit || c == '-'
  else isPrintable c && !inRanges barredRanges c.toNat

/-- The characters that count as the dot between labels. -/
def isLabelDot (c : Char) : Bool := [0x2e, 0x3002, 0xff0e, 0xff61].contains c.toNat

/-- The greatest length of a label. -/
def labelLimit : Nat := 63

/-- Whether a list of characters is a label. -/
def isLabel (cs : List Char) : Bool :=
  !cs.isEmpty && cs.length ≤ labelLimit && cs.all isLabelChar && cs.head? != some '-' &&
    cs.getLast? != some '-' && (cs.drop 2).take 2 != ['-', '-']

/-- Whether a list of characters is a host name. -/
def isHostName (cs : List Char) : Bool :=
  let labels := split '.' ((lower cs).map (fun c => if isLabelDot c then '.' else c))
  let labels := if labels.getLast? = some [] then labels.dropLast else labels
  !labels.isEmpty && labels.all isLabel

end Stepflow.Text
